import DartModels.Yaml.Scalar

/-!
# Tokens of a YAML text

A text cut into tokens, among them those that are not written: the start and
the end of a block, which only indentation shows, and the mark in front of a
key, which only the colon behind the key shows.

Two pieces of state make this possible. The columns of the open blocks are a
stack; a line that begins further left closes the blocks that begin further
right. And for each level of brackets there may be a pending key: the token
that would be a key if a colon followed it on the same line. When the colon
comes, the missing tokens are put in front of that token. When it cannot come
any more the token is forgotten, or, where a block admits nothing but a key,
that is a fault.

A token that is still pending cannot be handed to the reader of tokens, since
something may have to go in front of it, and neither can those behind it. If a
fault turns up meanwhile, it is reported before them. `scan` therefore returns
the tokens in front of the oldest pending one together with the fault, and a
reader that gets through these tokens has to report the fault.

## Main definitions

* `TokenKind`, `Token`: The tokens.
* `Scanner`: The state of a scan.
* `Scanner.fetch`: The next token.
* `scan`: The tokens of a text, and the fault that ends them.
-/

namespace DartModels

namespace Yaml

/-- The kinds of tokens. -/
inductive TokenKind where
  | streamEnd
  | versionDirective (major minor : Nat)
  | tagDirective (handle expansion : String)
  | documentStart
  | documentEnd
  | blockSequenceStart
  | blockMappingStart
  | blockEnd
  | flowSequenceStart
  | flowSequenceEnd
  | flowMappingStart
  | flowMappingEnd
  | blockEntry
  | flowEntry
  | key
  | value
  | alias (name : String)
  | anchor (name : String)
  | tag (handle suffix : String)
  /-- A scalar, and whether it was written without marks. -/
  | scalar (text : String) (isPlain : Bool)
  deriving DecidableEq

/-- A token with its two ends. -/
structure Token where
  kind : TokenKind
  start : Mark
  stop : Mark

/-- A token that a colon would make a key. -/
structure PendingKey where
  /-- Whether nothing but a key is admitted here. -/
  required : Bool
  /-- The number of the token. -/
  token : Nat
  mark : Mark

/-- The state of a scan. -/
structure Scanner where
  cursor : Cursor
  tokens : Array Token
  /-- The column of the innermost block, -1 outside of all. -/
  indent : Int
  /-- The columns of the blocks around it. -/
  outer : List Int
  /-- Whether a key may begin here. -/
  keyAllowed : Bool
  /-- The pending key of the innermost level of brackets. -/
  pending : Option PendingKey
  /-- The pending keys of the levels around it. -/
  outerPending : List (Option PendingKey)

namespace Scanner

/-- The state at the start of a text. -/
def start (text : List Char) : Scanner :=
  ⟨⟨text, .start⟩, #[], -1, [], true, none, []⟩

/-- Whether the scan is inside brackets. -/
def inFlow (s : Scanner) : Bool :=
  !s.outerPending.isEmpty

/-- The place that the scan has reached. -/
def mark (s : Scanner) : Mark :=
  s.cursor.mark

/-- Append a token that reaches from `start` to the cursor. -/
def emit (s : Scanner) (kind : TokenKind) (start : Mark) : Scanner :=
  { s with tokens := s.tokens.push ⟨kind, start, s.mark⟩ }

/-- Put a token that is not written in front of token number `n`. -/
def insertAt (s : Scanner) (n : Nat) (kind : TokenKind) (mark : Mark) : Scanner :=
  let token : Token := ⟨kind, mark, mark⟩
  { s with tokens := (s.tokens.toList.take n ++ token :: s.tokens.toList.drop n).toArray }

/-! ### Blocks -/

/-- Begin a block at `column` if it is further right than the innermost one.
    Its token goes in front of token number `at?`, or at the end. -/
def openBlock (s : Scanner) (column : Nat) (at? : Option Nat) (kind : TokenKind) (mark : Mark) :
    Scanner :=
  if !s.inFlow && s.indent < column then
    let s := { s with outer := s.indent :: s.outer, indent := column }
    s.insertAt (at?.getD s.tokens.size) kind mark
  else s

/-- The blocks that are left when those further right than `column` are
    closed: the innermost, the others, and how many were closed. -/
def unroll (column : Int) : Int → List Int → Int × List Int × Nat
  | indent, [] => (indent, [], 0)
  | indent, i :: rest =>
      if column < indent then
        let (indent, outer, n) := unroll column i rest
        (indent, outer, n + 1)
      else (indent, i :: rest, 0)

/-- Close the blocks that are further right than `column`. -/
def closeBlocks (s : Scanner) (column : Int) : Scanner :=
  if s.inFlow then s
  else
    let (indent, outer, n) := unroll column s.indent s.outer
    Nat.repeat (fun s => s.emit .blockEnd s.mark) n { s with indent, outer }

/-! ### Pending keys -/

/-- The number of characters within which the colon of a key has to come. -/
def maxKeyLength : Nat := 1024

/-- Whether the colon of a pending key cannot come any more. -/
def isStale (s : Scanner) (k : PendingKey) : Bool :=
  k.mark.line < s.mark.line || k.mark.index + maxKeyLength < s.mark.index

/-- The fault of a key without its colon. -/
def missingColon (s : Scanner) (k : PendingKey) : Fault :=
  .during .simpleKey k.mark .noColon s.mark

/-- Forget a pending key that has become stale. -/
def dropStale (s : Scanner) : Option PendingKey → Except Fault (Option PendingKey)
  | none => .ok none
  | some k =>
      if s.isStale k then
        if k.required then .error (s.missingColon k) else .ok none
      else .ok (some k)

/-- Forget the pending keys that have become stale, outermost first. -/
def dropAllStale (s : Scanner) : Except Fault Scanner := do
  let outerPending ← s.outerPending.reverse.mapM s.dropStale
  let pending ← s.dropStale s.pending
  .ok { s with pending, outerPending := outerPending.reverse }

/-- Forget the pending key of this level because something else stands where
    its colon would be. -/
def dropPending (s : Scanner) : Except Fault Scanner :=
  match s.pending with
  | some k => if k.required then .error (s.missingColon k) else .ok { s with pending := none }
  | none => .ok s

/-- Let the token that comes next be a pending key, if a key may begin here. -/
def savePending (s : Scanner) : Except Fault Scanner :=
  if s.keyAllowed then do
    let required := !s.inFlow && s.indent == (s.mark.column : Int)
    let k : PendingKey := ⟨required, s.tokens.size, s.mark⟩
    -- Only one token at a time can wait for a colon.
    let s ← s.dropPending
    .ok { s with pending := some k }
  else .ok s

/-- The number of the oldest pending token, or of the token to come. -/
def oldestPending (s : Scanner) : Nat :=
  (s.pending :: s.outerPending).foldl
    (fun n k => match k with
      | some k => min n k.token
      | none => n) s.tokens.size

/-! ### Between tokens -/

/-- Move over blanks, comments and line breaks. Outside of brackets a tab is
    not a blank where a key may begin, and a break lets a key begin. -/
def skipGaps : Nat → Scanner → Scanner
  | 0, s => s
  | fuel + 1, s =>
      let tabs := s.inFlow || !s.keyAllowed
      let c := s.cursor.skipWhile fun x => x == ' ' || (tabs && x == '\t')
      let c := if c.isAt '#' then c.skipLine else c
      match c.head? with
      | some x =>
          if isBreak x then
            skipGaps fuel
              { s with cursor := c.skipBreak, keyAllowed := s.keyAllowed || !s.inFlow }
          else { s with cursor := c }
      | none => { s with cursor := c }

/-! ### Directives and tags -/

/-- The digits of a version number. -/
def versionNumber (began : Mark) (c : Cursor) : Except Fault (Nat × Cursor) :=
  let (digits, c') := c.takeWhile Char.isDigit
  if 9 < digits.length then
    .error (.during .versionDirective began .longVersionNumber (c.skipN 9).mark)
  else if digits.isEmpty then .error (.during .versionDirective began .noVersionNumber c.mark)
  else .ok (digits.foldl (fun n d => n * 10 + (d.toNat - '0'.toNat)) 0, c')

/-- Whether a character can stand in the address of a tag. -/
def isUriChar (brackets : Bool) (c : Char) : Bool :=
  isWordChar c || c == ';' || c == '/' || c == '?' || c == ':' || c == '@' || c == '&' ||
    c == '=' || c == '+' || c == '$' || c == '.' || c == '%' || c == '!' || c == '~' ||
    c == '*' || c == '\'' || c == '(' || c == ')' ||
    (brackets && (c == ',' || c == '[' || c == ']'))

/-- The bytes of a percent-encoded run. -/
def percentBytes : List Char → List Nat
  | '%' :: a :: b :: rest =>
      match Scalar.hexNumber? [a, b] with
      | some n => n :: percentBytes rest
      | none => []
  | _ => []

/-- A text with its percent-encoded runs decoded, as far as they are text. -/
def decodePercent : Nat → List Char → Option (List Char)
  | 0, _ => none
  | _ + 1, [] => some []
  | fuel + 1, '%' :: rest =>
      let bytes := percentBytes ('%' :: rest)
      if bytes.isEmpty then none
      else
        match String.fromUTF8? (ByteArray.mk (bytes.map Nat.toUInt8).toArray) with
        | some run => (decodePercent fuel (('%' :: rest).drop (3 * bytes.length))).map
            (run.toList ++ ·)
        | none => none
  | fuel + 1, c :: rest => (decodePercent fuel rest).map (c :: ·)

/-- The address of a tag behind what is known of it already. -/
def tagUri (activity : Activity) (brackets : Bool) (known : List Char) (began : Mark)
    (c : Cursor) : Except Fault (String × Cursor) :=
  let (run, c') := c.takeWhile (isUriChar brackets)
  if run.isEmpty && known.isEmpty then .error (.during activity began .noTagUri c.mark)
  else
    match decodePercent (run.length + 1) run with
    | some decoded => .ok (String.ofList (known ++ decoded), c')
    | none => .error (.during activity began .noUriEscape c.mark)

/-- The handle of a tag: an exclamation mark, or a word between two. -/
def tagHandle (began : Mark) (directive : Bool) (c : Cursor) :
    Except Fault (List Char × Cursor) :=
  if !c.isAt '!' then
    .error (.during (if directive then .tagDirectiveHandle else .tag) began .noTagBang c.mark)
  else
    let (word, c) := c.skip.takeWhile isWordChar
    if c.isAt '!' then .ok ('!' :: (word ++ ['!']), c.skip)
    else if directive && !word.isEmpty then
      .error (.during .tagDirectiveEnd began .noTagBang c.mark)
    else .ok ('!' :: word, c)

/-- A tag at the cursor: its handle, its suffix, and the cursor behind it. -/
def tagParts (c : Cursor) : Except Fault (String × String × Cursor) := do
  let began := c.mark
  if c.rest.tail.head? == some '<' then
    let (uri, c) ← tagUri .tagUri true [] began (c.skipN 2)
    if !c.isAt '>' then .error (.during .tag began .noTagEnd c.mark)
    else .ok ("", uri, c.skip)
  else
    let (handle, c) ← tagHandle began false c
    if 1 < handle.length && handle.getLast? == some '!' then
      let (suffix, c) ← tagUri .tagUri false [] began c
      .ok (String.ofList handle, suffix, c)
    else
      -- What looked like a handle is the beginning of the suffix.
      let known := handle.tail
      let (run, c') := c.takeWhile (isUriChar false)
      if run.isEmpty && known.isEmpty then .ok ("", "!", c)
      else
        match decodePercent (run.length + 1) run with
        | some decoded => .ok ("!", String.ofList (known ++ decoded), c')
        | none => .error (.during .tagUri began .noUriEscape c.mark)

/-- A directive line. -/
def directive (s : Scanner) : Except Fault Scanner := do
  let began := s.mark
  let (name, c) := s.cursor.skip.takeWhile isWordChar
  if name.isEmpty then .error (.during .directive began .noDirectiveName c.mark)
  else if !atGap c.rest then .error (.during .directive began .badDirectiveName c.mark)
  else
    let (kind, c) ←
      if name = "YAML".toList then do
        let (major, c) ← versionNumber began (c.skipWhile isBlank)
        if !c.isAt '.' then Except.error (.during .versionDirective began .noVersionDot c.mark)
        else
          let (minor, c) ← versionNumber began c.skip
          Except.ok (TokenKind.versionDirective major minor, c)
      else if name = "TAG".toList then do
        let (handle, c) ← tagHandle began true (c.skipWhile isBlank)
        if !(c.head?.map isBlank).getD false then
          Except.error (.during .tagDirective began .noDirectiveBlank c.mark)
        else
          let (expansion, c) ← tagUri .tagDirectiveUri true [] began (c.skipWhile isBlank)
          if !atGap c.rest then Except.error (.during .tagDirective began .noTagBlank c.mark)
          else Except.ok (TokenKind.tagDirective (String.ofList handle) expansion, c)
      else Except.error (.during .directive began .unknownDirective c.mark)
    let s := { s with cursor := c }.emit kind began
    let c := c.skipWhile isBlank
    let c := if c.isAt '#' then c.skipLine else c
    if !atLineEnd c.rest then .error (.during .directive began .noCommentOrBreak c.mark)
    else .ok { s with cursor := c.skipBreak }

/-! ### The tokens -/

/-- A token of the given width at the cursor. -/
def simple (s : Scanner) (kind : TokenKind) (width : Nat) : Scanner :=
  { s with cursor := s.cursor.skipN width }.emit kind s.mark

/-- The end of the text. The last line counts as ended even if no break ends
    it. -/
def endStream (s : Scanner) : Except Fault Scanner := do
  let m := s.mark
  let m := if m.column = 0 then m else ⟨m.index, m.line + 1, 0⟩
  let s := { s with cursor := ⟨s.cursor.rest, m⟩ }
  let s ← (s.closeBlocks (-1)).dropPending
  .ok ({ s with keyAllowed := false }.emit .streamEnd s.mark)

/-- A token that ends all blocks. -/
def atTop (s : Scanner) (fetch : Scanner → Except Fault Scanner) : Except Fault Scanner := do
  let s ← (s.closeBlocks (-1)).dropPending
  fetch { s with keyAllowed := false }

/-- An opening bracket. -/
def openBracket (s : Scanner) (kind : TokenKind) : Except Fault Scanner := do
  let s ← s.savePending
  let s := { s with pending := none, outerPending := s.pending :: s.outerPending }
  .ok ({ s with keyAllowed := true }.simple kind 1)

/-- A closing bracket. -/
def closeBracket (s : Scanner) (kind : TokenKind) : Except Fault Scanner := do
  let s ← s.dropPending
  let s := match s.outerPending with
    | [] => s
    | p :: rest => { s with pending := p, outerPending := rest }
  .ok ({ s with keyAllowed := false }.simple kind 1)

/-- A comma between brackets. -/
def flowEntry (s : Scanner) : Except Fault Scanner := do
  let s ← s.dropPending
  .ok ({ s with keyAllowed := true }.simple .flowEntry 1)

/-- The dash of a block sequence. Between brackets it is left to the reader of
    tokens, who can say more about it. -/
def blockEntry (s : Scanner) : Except Fault Scanner := do
  if !s.inFlow && !s.keyAllowed then .error (.plain .blockEntryNotAllowed s.mark)
  else
    let s := s.openBlock s.mark.column none .blockSequenceStart s.mark
    let s ← s.dropPending
    .ok ({ s with keyAllowed := true }.simple .blockEntry 1)

/-- The question mark in front of a key. -/
def keyMark (s : Scanner) : Except Fault Scanner := do
  if !s.inFlow && !s.keyAllowed then .error (.plain .keyNotAllowed s.mark)
  else
    let s := s.openBlock s.mark.column none .blockMappingStart s.mark
    let s ← s.dropPending
    .ok ({ s with keyAllowed := !s.inFlow }.simple .key 1)

/-- The colon behind a key. If a token waits for it, that token turns out to
    be the key. -/
def valueMark (s : Scanner) : Except Fault Scanner :=
  match s.pending with
  | some k =>
      -- The start of the block goes in front of the key, so it is put there last.
      let s := s.insertAt k.token .key k.mark
      let s := s.openBlock k.mark.column (some k.token) .blockMappingStart k.mark
      .ok ({ s with pending := none, keyAllowed := false }.simple .value 1)
  | none =>
      if !s.inFlow && !s.keyAllowed then .error (.plain .valueNotAllowed s.mark)
      else
        let s := s.openBlock s.mark.column none .blockMappingStart s.mark
        .ok ({ s with keyAllowed := !s.inFlow }.simple .value 1)

/-- Whether a character may follow the name of an anchor or alias. -/
def endsName (s : List Char) : Bool :=
  atGap s ||
    match s with
    | c :: _ => c == '?' || c == ':' || c == ',' || c == ']' || c == '\x7d' || c == '%' ||
        c == '@' || c.toNat == 0x60
    | [] => true

/-- An anchor or an alias. -/
def named (s : Scanner) (activity : Activity) (kind : String → TokenKind) :
    Except Fault Scanner := do
  let s ← s.savePending
  let began := s.mark
  let (name, c) := s.cursor.skip.takeWhile isWordChar
  if name.isEmpty || !endsName c.rest then .error (.during activity began .noAnchorName c.mark)
  else .ok ({ s with keyAllowed := false, cursor := c }.emit (kind (String.ofList name)) began)

/-- A tag. -/
def tagToken (s : Scanner) : Except Fault Scanner := do
  let s ← s.savePending
  let began := s.mark
  let (handle, suffix, c) ← tagParts s.cursor
  if !atGap c.rest && !(s.inFlow && c.isAt ',') then
    .error (.during .tag began .noTagBlank c.mark)
  else .ok ({ s with keyAllowed := false, cursor := c }.emit (.tag handle suffix) began)

/-- A block scalar. -/
def blockScalar (s : Scanner) (literal : Bool) : Except Fault Scanner := do
  let s ← s.dropPending
  let (text, c) ← Scalar.block literal s.indent s.cursor
  .ok ({ s with keyAllowed := true, cursor := c }.emit (.scalar text false) s.mark)

/-- A scalar in quotes. -/
def quotedScalar (s : Scanner) (single : Bool) : Except Fault Scanner := do
  let s ← s.savePending
  let (text, c) ← Scalar.quoted single s.cursor
  .ok ({ s with keyAllowed := false, cursor := c }.emit (.scalar text false) s.mark)

/-- A plain scalar. A break behind it lets a key begin. -/
def plainScalar (s : Scanner) : Except Fault Scanner := do
  let s ← s.savePending
  let (text, stop, c, broken) ← Scalar.plain s.inFlow (s.indent + 1).toNat s.cursor
  .ok { s with
    keyAllowed := broken
    cursor := c
    tokens := s.tokens.push ⟨.scalar text true, s.mark, stop⟩ }

/-- Whether a plain scalar can begin here. -/
def startsPlain (inFlow : Bool) : List Char → Bool
  | [] => false
  | c :: rest =>
      if c == '-' then !(rest.head?.map isBlank).getD false
      else if c == '?' || c == ':' then !inFlow && !atGap rest
      else
        !(isBlank c || isBreak c || c == ',' || c == '[' || c == ']' || c == '\x7b' ||
          c == '\x7d' || c == '#' || c == '&' || c == '*' || c == '!' || c == '|' || c == '>' ||
          c == '\'' || c == '"' || c == '%' || c == '@' || c.toNat == 0x60)

/-- The token at the cursor, which is not in a gap. -/
def token (s : Scanner) : Except Fault Scanner :=
  let c := s.cursor
  let flow := s.inFlow
  match c.rest with
  | [] => s.endStream
  | x :: rest =>
      -- The forms that count only at the beginning of a line come first.
      if c.mark.column = 0 && x == '%' then s.atTop directive
      else if c.atIndicator '-' then s.atTop fun s => .ok (s.simple .documentStart 3)
      else if c.atIndicator '.' then s.atTop fun s => .ok (s.simple .documentEnd 3)
      else if x == '[' then s.openBracket .flowSequenceStart
      else if x == '\x7b' then s.openBracket .flowMappingStart
      else if x == ']' then s.closeBracket .flowSequenceEnd
      else if x == '\x7d' then s.closeBracket .flowMappingEnd
      else if x == ',' then s.flowEntry
      else if x == '-' && atGap rest then s.blockEntry
      else if x == '?' && (flow || atGap rest) then s.keyMark
      else if x == ':' && (flow || atGap rest) then s.valueMark
      else if x == '*' then s.named .alias .alias
      else if x == '&' then s.named .anchor .anchor
      else if x == '!' then s.tagToken
      else if x == '|' && !flow then s.blockScalar true
      else if x == '>' && !flow then s.blockScalar false
      else if x == '\'' then s.quotedScalar true
      else if x == '"' then s.quotedScalar false
      else if startsPlain flow c.rest then s.plainScalar
      else .error (.during .nextToken c.mark .noTokenStart c.mark)

/-- Take the scan past the next token. -/
def fetch (s : Scanner) : Except Fault Scanner := do
  let s := skipGaps (s.cursor.rest.length + 1) s
  let s ← s.dropAllStale
  let s ← (s.closeBlocks s.mark.column).token
  -- A token over several lines may have made the tokens before it stale.
  s.dropAllStale

/-- Whether the scan is at its end. -/
def isDone (s : Scanner) : Bool :=
  match s.tokens.back? with
  | some t => t.kind = .streamEnd
  | none => false

/-- The tokens of the rest of a text, with the fault that ends them. -/
def run : Nat → Scanner → List Token × Option Fault
  | 0, s => (s.tokens.toList, none)
  | fuel + 1, s =>
      match s.fetch with
      -- A token that may still become a key is withheld, and so are those behind it.
      | .error f => (s.tokens.toList.take s.oldestPending, some f)
      | .ok s => if s.isDone then (s.tokens.toList, none) else run fuel s

end Scanner

/-- Whether a character may occur in a text. -/
def isAllowed (c : Char) : Bool :=
  let n := c.toNat
  n == 0x09 || n == 0x0A || n == 0x0D || (0x20 ≤ n && n ≤ 0x7E) || n == 0x85 ||
    (0xA0 ≤ n && n ≤ 0xD7FF) || (0xE000 ≤ n && n ≤ 0xFFFD && n != 0xFEFF) || 0x10000 ≤ n

/-- The number of bytes before the first character that may not occur. -/
def firstForbidden : Nat → List Char → Option Nat
  | _, [] => none
  | offset, c :: rest =>
      if isAllowed c then firstForbidden (offset + c.utf8Size) rest else some offset

/-- The tokens of a text, and the fault that ends them if there is one. A byte
    order mark in front of the text is not part of it. -/
def scan (text : List Char) : List Token × Option Fault :=
  let (offset, body) := match text with
    | '\ufeff' :: rest => (3, rest)
    | rest => (0, rest)
  match firstForbidden offset body with
  | some offset => ([], some ⟨.controlCharacter, .start, offset, none⟩)
  | none => (Scanner.start body).run (body.length + 2)

end Yaml

end DartModels
