import DartModels.Text.Debug
import DartModels.Yaml.Token
import DartModels.Yaml.Value

/-!
# Documents of a YAML text

The tokens of a text read into the value of its document.

The reader descends through blocks and brackets and takes one token after the
other. Whatever is left out is null: the value of a key without one, an entry
behind a bare dash, a document without content. What it cannot take is
reported with the place of the token and the place where the collection
around it began.

Anchors name values and aliases repeat them. A value is complete when its
alias can repeat it, so a value that contains its own alias has no end and is
refused as too deep.

Some faults are not of form but of content: a key that occurs twice in a
mapping, an integer that is too wide, a scalar that contradicts its tag. These
are reported with the path of the value. Form and content are checked in one
pass, so of two faults the first in the text is the one that is reported.

A text has one document. A second one is refused whatever it holds.

## Main definitions

* `ReadError`: What can be wrong with a text, in words.
* `Reader.node`: A value at the head of the tokens.
* `read`: The value of a text.
-/

namespace DartModels

namespace Yaml

/-- A step from a collection to a value in it. -/
inductive Segment where
  | key (text : String)
  | index (i : Nat)
  /-- A key that is not a scalar. -/
  | unknown
  deriving DecidableEq

/-- A path of steps in words, the last step coming first. -/
def renderPath : List Segment → String
  | [] => "."
  | .key text :: rest => (if rest.isEmpty then "" else renderPath rest ++ ".") ++ text
  | .index i :: rest => renderPath rest ++ s!"[{i}]"
  | .unknown :: rest => (if rest.isEmpty then "" else renderPath rest ++ ".") ++ "?"

/-- What can be wrong with the content of a text. -/
inductive ContentError where
  | scalar (e : ScalarError)
  | repeatedKey (key : Value)

/-- Why a text has no value. -/
inductive ReadError where
  | malformed (fault : Fault)
  | content (path : List Segment) (mark : Mark) (e : ContentError)
  | unknownAnchor (mark : Mark)
  | tooDeep (mark : Mark)
  | severalDocuments

/-- A key as it is named in a message. -/
def keyPhrase : Value → String
  | .null => "with null key"
  | .bool b => s!"with key `{b}`"
  | .integer n => s!"with key {n}"
  | .double f =>
      let layout : Decimal.Layout := ⟨-5, 15, false, 1⟩
      "with key " ++ (layout.write? f).getD
        (if f.isNaN then ".nan" else if f < 0.0 then "-.inf" else ".inf")
  | .string s => "with key " ++ Text.debug s
  | _ => "in YAML map"

/-- An error of content in words. -/
def ContentError.message : ContentError → String
  | .scalar (.tooWide n) =>
      let width := if n < 0 then "i128" else "u128"
      s!"invalid type: integer `{n}` as {width}, expected any YAML value"
  | .scalar (.mismatch text expected) =>
      s!"invalid value: string {Text.debug text}, expected {expected}"
  | .repeatedKey key => s!"duplicate entry {keyPhrase key}"

/-- An error in words. -/
def ReadError.message : ReadError → String
  | .malformed fault => fault.message
  | .content path mark e =>
      (if path.isEmpty then "" else renderPath path ++ ": ") ++ e.message ++ spot mark
  | .unknownAnchor mark => "unknown anchor" ++ spot mark
  | .tooDeep mark => "recursion limit exceeded" ++ spot mark
  | .severalDocuments =>
      "deserializing from YAML containing more than one document is not supported"
where
  /-- A place in words, unless it is the start. -/
  spot (m : Mark) : String := if m.isStart then "" else s!" at {m.message}"

/-- What is left to read. -/
structure Reader where
  tokens : List Token
  /-- The fault behind the tokens. -/
  fault : Option Fault
  /-- The handles of tags and what they stand for. -/
  handles : List (String × String)
  /-- The anchors and their values. -/
  anchors : List (String × Value)
  /-- The anchors of the values that are being read. -/
  unfinished : List (String × Mark)

namespace Reader

/-- A step of reading: what it yields and what it leaves. -/
abbrev Step (α : Type) := StateT Reader (Except ReadError) α

/-- The next token, which is left where it is. -/
def peek : Step Token := do
  let r ← get
  match r.tokens, r.fault with
  | t :: _, _ => pure t
  | [], some f => throw (.malformed f)
  | [], none => pure ⟨.streamEnd, .start, .start⟩

/-- Take the next token. -/
def drop : Step Unit :=
  modify fun r => { r with tokens := r.tokens.tail }

/-- Report a token that cannot stand where it stands. -/
def unexpected {α : Type} (activity : Activity) (began : Mark) (problem : Problem) (t : Token) :
    Step α :=
  throw (.malformed (.during activity began problem t.start))

/-- The tag that a handle and a suffix stand for. -/
def resolveTag (handle suffix : String) (began place : Mark) : Step String := do
  if handle.isEmpty then pure suffix
  else
    match ((← get).handles.find? (·.1 = handle)) with
    | some (_, expansion) => pure (expansion ++ suffix)
    | none => throw (.malformed (.during .node began .undefinedHandle place))

/-- The properties in front of a value: its anchor, its tag, and the place
    where they begin. They may come in either order. -/
def properties : Step (Option String × Option String × Mark) := do
  let t ← peek
  let began := t.start
  match t.kind with
  | .anchor name => do
      drop
      let u ← peek
      match u.kind with
      | .tag handle suffix => do
          drop
          pure (some name, some (← resolveTag handle suffix began u.start), began)
      | _ => pure (some name, none, began)
  | .tag handle suffix => do
      drop
      let u ← peek
      match u.kind with
      | .anchor name => do
          drop
          pure (some name, some (← resolveTag handle suffix began t.start), began)
      | _ => pure (none, some (← resolveTag handle suffix began t.start), began)
  | _ => pure (none, none, began)

/-- The tag that is kept with a value: one of the document's own. -/
def ownTag? (tag : Option String) : Option String :=
  tag.bind fun t =>
    match t.toList with
    | '!' :: rest => some (String.ofList rest)
    | _ => none

/-- A value under its tag, if that is kept. -/
def withTag (tag : Option String) (v : Value) : Value :=
  match ownTag? tag with
  | some t => .tagged t v
  | none => v

/-- The value of a scalar. -/
def scalarValue (path : List Segment) (mark : Mark) (tag : Option String) (text : String)
    (isPlain : Bool) : Step Value :=
  let r := match tag with
    | some t => Value.ofTagged t text isPlain
    | none => if isPlain then Value.ofPlain text else .ok (.string text)
  match r with
  | .ok v => pure (withTag tag v)
  | .error e => throw (.content path mark (.scalar e))

/-- The step to the value of a key. -/
def segment (t : Token) : Segment :=
  match t.kind with
  | .scalar text _ => .key text
  | _ => .unknown

/-- A key that does not occur among the entries yet. -/
def newKey (path : List Segment) (began : Mark) (entries : List (Value × Value)) (key : Value) :
    Step Unit :=
  if entries.any fun e => e.1.same key then throw (.content path began (.repeatedKey key))
  else pure ()

/-- Whether a token stands where the content of a block entry is missing. -/
def endsBlockEntry : TokenKind → Bool
  | .blockEntry => true
  | .blockEnd => true
  | _ => false

/-- Whether a token stands where the content of an entry without indentation
    is missing. -/
def endsFlatEntry : TokenKind → Bool
  | .blockEntry => true
  | .key => true
  | .value => true
  | .blockEnd => true
  | _ => false

/-- Whether a token stands where a key or value of a block is missing. -/
def endsBlockPart : TokenKind → Bool
  | .key => true
  | .value => true
  | .blockEnd => true
  | _ => false

/-- Whether a token stands where a part of a bracketed mapping is missing. -/
def endsFlowPart (close : TokenKind) (k : TokenKind) : Bool :=
  k = .value || k = .flowEntry || k = close

/-- Note that the value of an anchor is being read. -/
def openAnchor (anchor : Option String) (began : Mark) : Step Unit :=
  match anchor with
  | some name => modify fun r => { r with unfinished := (name, began) :: r.unfinished }
  | none => pure ()

/-- Note the value of an anchor. -/
def closeAnchor (anchor : Option String) (v : Value) : Step Unit :=
  match anchor with
  | some name => modify fun r =>
      { r with unfinished := r.unfinished.tail, anchors := (name, v) :: r.anchors }
  | none => pure ()

/-- The value that an alias repeats. -/
def aliasValue (name : String) (mark : Mark) : Step Value := do
  let r ← get
  match r.unfinished.find? (·.1 = name), r.anchors.find? (·.1 = name) with
  -- A value inside itself has no bottom.
  | some (_, began), _ => throw (.tooDeep began)
  | none, some (_, v) => pure v
  | none, none => throw (.unknownAnchor mark)

mutual

/-- A value at the head of the tokens, when `room` more collections may be
    opened. `inBlock` admits blocks, and `flat` admits a sequence whose dashes
    are not indented. -/
def node : Nat → Nat → Bool → Bool → List Segment → Step Value
  | 0, _, _, _, _ => pure .null
  | fuel + 1, room, inBlock, flat, path => do
      let t ← peek
      match t.kind with
      | .alias name => do
          drop
          aliasValue name t.start
      | _ => do
          let (anchor, tag, began) ← properties
          let t ← peek
          openAnchor anchor began
          let v ←
            match t.kind, room with
            | .scalar text isPlain, _ => do
                drop
                scalarValue path began tag text isPlain
            | .blockEntry, room =>
                if flat then collection room began tag fun room =>
                  flatEntries fuel room path began 0 []
                else missing inBlock path began tag anchor t
            | .flowSequenceStart, room => do
                drop
                collection room began tag fun room => flowItems fuel room path t.start 0 []
            | .flowMappingStart, room => do
                drop
                collection room began tag fun room =>
                  flowEntries fuel room path began t.start true []
            | .blockSequenceStart, room =>
                if inBlock then do
                  drop
                  collection room began tag fun room => blockItems fuel room path t.start 0 []
                else missing inBlock path began tag anchor t
            | .blockMappingStart, room =>
                if inBlock then do
                  drop
                  collection room began tag fun room =>
                    blockEntries fuel room path began t.start []
                else missing inBlock path began tag anchor t
            | _, _ => missing inBlock path began tag anchor t
          closeAnchor anchor v
          pure v
where
  /-- A value of which only the properties are there. Without those nothing
      is there, and the token is out of place. -/
  missing (inBlock : Bool) (path : List Segment) (began : Mark) (tag anchor : Option String)
      (t : Token) : Step Value :=
    if tag.isNone && anchor.isNone then
      unexpected (if inBlock then .blockNode else .flowNode) began .noNodeContent t
    else scalarValue path began tag "" true
  /-- A collection, if one more may be opened. -/
  collection (room : Nat) (began : Mark) (tag : Option String) (body : Nat → Step Value) :
      Step Value :=
    match room with
    | 0 => throw (.tooDeep began)
    | room + 1 => do pure (withTag tag (← body room))

/-- The items of a block sequence from number `i` on. -/
def blockItems : Nat → Nat → List Segment → Mark → Nat → List Value → Step Value
  | 0, _, _, _, _, _ => pure .null
  | fuel + 1, room, path, began, i, taken => do
      let t ← peek
      match t.kind with
      | .blockEntry => do
          drop
          let u ← peek
          let v ← if endsBlockEntry u.kind then pure Value.null
            else node fuel room true false (.index i :: path)
          blockItems fuel room path began (i + 1) (v :: taken)
      | .blockEnd => do
          drop
          pure (.sequence taken.reverse)
      | _ => unexpected .blockCollection began .noDash t

/-- The items of a sequence whose dashes stand where its key stands. -/
def flatEntries : Nat → Nat → List Segment → Mark → Nat → List Value → Step Value
  | 0, _, _, _, _, _ => pure .null
  | fuel + 1, room, path, began, i, taken => do
      let t ← peek
      match t.kind with
      | .blockEntry => do
          drop
          let u ← peek
          let v ← if endsFlatEntry u.kind then pure Value.null
            else node fuel room true false (.index i :: path)
          flatEntries fuel room path began (i + 1) (v :: taken)
      | _ => pure (.sequence taken.reverse)

/-- The entries of a block mapping. -/
def blockEntries : Nat → Nat → List Segment → Mark → Mark → List (Value × Value) → Step Value
  | 0, _, _, _, _, _ => pure .null
  | fuel + 1, room, path, place, began, taken => do
      let t ← peek
      match t.kind with
      | .key => do
          drop
          let u ← peek
          let key ← if endsBlockPart u.kind then pure Value.null
            else node fuel room true true path
          -- A repeated key is reported before its value is looked at.
          newKey path place taken key
          let v ← blockValue fuel room (segment u :: path)
          blockEntries fuel room path place began (taken ++ [(key, v)])
      | .blockEnd => do
          drop
          pure (.mapping taken)
      | _ => unexpected .blockMapping began .noKey t

/-- The value behind a key of a block mapping. -/
def blockValue : Nat → Nat → List Segment → Step Value
  | 0, _, _ => pure .null
  | fuel + 1, room, path => do
      let t ← peek
      if t.kind = .value then do
        drop
        let u ← peek
        if endsBlockPart u.kind then pure .null else node fuel room true true path
      else pure .null

/-- The items of a bracketed sequence from number `i` on. A key among them is
    a mapping of its own. -/
def flowItems : Nat → Nat → List Segment → Mark → Nat → List Value → Step Value
  | 0, _, _, _, _, _ => pure .null
  | fuel + 1, room, path, began, i, taken => do
      let t ← peek
      if t.kind = .flowSequenceEnd then do
        drop
        pure (.sequence taken.reverse)
      else do
        let t ←
          if taken.isEmpty then pure t
          else if t.kind = .flowEntry then do
            drop
            peek
          else unexpected .flowSequence began .noCommaInSequence t
        if t.kind = .flowSequenceEnd then do
          drop
          pure (.sequence taken.reverse)
        else if t.kind = .key then do
          drop
          let v ← flowPair fuel room (.index i :: path) t.start
          flowItems fuel room path began (i + 1) (v :: taken)
        else do
          let v ← node fuel room false false (.index i :: path)
          flowItems fuel room path began (i + 1) (v :: taken)

/-- A mapping of one entry inside a bracketed sequence. -/
def flowPair : Nat → Nat → List Segment → Mark → Step Value
  | 0, _, _, _ => pure .null
  | fuel + 1, room, path, began => do
      match room with
      | 0 => throw (.tooDeep began)
      | room + 1 => do
          let t ← peek
          let key ←
            if endsFlowPart .flowSequenceEnd t.kind then do
              drop
              pure Value.null
            else node fuel room false false path
          let u ← peek
          let v ← if u.kind = .value then do
              drop
              let w ← peek
              if w.kind = .flowEntry || w.kind = .flowSequenceEnd then pure Value.null
              else node fuel room false false (segment t :: path)
            else pure Value.null
          pure (.mapping [(key, v)])

/-- The entries of a bracketed mapping. -/
def flowEntries : Nat → Nat → List Segment → Mark → Mark → Bool → List (Value × Value) →
    Step Value
  | 0, _, _, _, _, _, _ => pure .null
  | fuel + 1, room, path, place, began, first, taken => do
      let t ← peek
      if t.kind = .flowMappingEnd then do
        drop
        pure (.mapping taken)
      else do
        let t ←
          if first then pure t
          else if t.kind = .flowEntry then do
            drop
            peek
          else unexpected .flowMapping began .noCommaInMapping t
        if t.kind = .flowMappingEnd then do
          drop
          pure (.mapping taken)
        else if t.kind = .key then do
          drop
          let u ← peek
          let key ← if endsFlowPart .flowMappingEnd u.kind then pure Value.null
            else node fuel room false false path
          newKey path place taken key
          let v ← flowValue fuel room (segment u :: path)
          flowEntries fuel room path place began false (taken ++ [(key, v)])
        else do
          -- A value by itself is a key without a value.
          let key ← node fuel room false false path
          newKey path place taken key
          flowEntries fuel room path place began false (taken ++ [(key, .null)])

/-- The value behind a key of a bracketed mapping. -/
def flowValue : Nat → Nat → List Segment → Step Value
  | 0, _, _ => pure .null
  | fuel + 1, room, path => do
      let t ← peek
      if t.kind = .value then do
        drop
        let u ← peek
        if u.kind = .flowEntry || u.kind = .flowMappingEnd then pure .null
        else node fuel room false false path
      else pure .null

end

/-- The handles that every document knows. -/
def defaultHandles : List (String × String) :=
  [("!", "!"), ("!!", coreTag)]

/-- The directives in front of a document. -/
def directives : Nat → Bool → List (String × String) → Step Unit
  | 0, _, _ => pure ()
  | fuel + 1, versioned, own => do
      let t ← peek
      match t.kind with
      | .versionDirective major minor =>
          if versioned then throw (.malformed (.plain .repeatedVersion t.start))
          else if major ≠ 1 || (minor ≠ 1 && minor ≠ 2) then
            throw (.malformed (.plain .wrongVersion t.start))
          else do
            drop
            directives fuel true own
      | .tagDirective handle expansion =>
          if own.any (·.1 = handle) then throw (.malformed (.plain .repeatedTag t.start))
          else do
            drop
            directives fuel versioned ((handle, expansion) :: own)
      | _ => modify fun r => { r with handles := own ++ defaultHandles }

/-- Whether a token begins the lines in front of an explicit document. -/
def isHead : TokenKind → Bool
  | .versionDirective _ _ => true
  | .tagDirective _ _ => true
  | .documentStart => true
  | _ => false

/-- Whether a token stands where the content of a document is missing. -/
def endsDocument : TokenKind → Bool
  | .versionDirective _ _ => true
  | .tagDirective _ _ => true
  | .documentStart => true
  | .documentEnd => true
  | .streamEnd => true
  | _ => false

/-- How many collections may be open at once. -/
def maxOpen : Nat := 128

/-- The content of a document, of which `n` bounds the number of tokens. -/
def content (n : Nat) : Step Value :=
  node (4 * n + 8) maxOpen true false []

/-- The first document of a text. A text without one has the value null. -/
def firstDocument (n : Nat) : Step Value := do
  let t ← peek
  if t.kind = .streamEnd then pure .null
  else if isHead t.kind then do
    directives (n + 1) false []
    let t ← peek
    if t.kind = .documentStart then do
      drop
      let u ← peek
      if endsDocument u.kind then pure .null else content n
    else throw (.malformed (.plain .noDocumentStart t.start))
  else content n

/-- The end of the only document. Its end may be marked any number of times. -/
def lastDocument (r : Reader) : Except ReadError Unit :=
  let tokens := r.tokens.dropWhile fun t => t.kind = .documentEnd
  match tokens, r.fault with
  | t :: _, _ => if t.kind = .streamEnd then .ok () else .error .severalDocuments
  | [], some _ => .error .severalDocuments
  | [], none => .ok ()

end Reader

/-- The value of a text. -/
def read (text : String) : Except ReadError Value := do
  let (tokens, fault) := scan text.toList
  let n := tokens.length
  let (v, r) ← (do
    let v ← Reader.firstDocument n
    -- A fault right behind the document is a fault of the document.
    let _ ← Reader.peek
    pure v : Reader.Step Value).run ⟨tokens, fault, Reader.defaultHandles, [], []⟩
  Reader.lastDocument r
  .ok v

end Yaml

end DartModels
