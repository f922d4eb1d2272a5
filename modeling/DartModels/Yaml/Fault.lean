/-!
# Faults of a YAML text

What can be wrong with the form of a YAML text, and how it is reported.

A fault has two halves: what was found, and what was being read at the time.
Each half has its place. The places are counted in characters, from the start
of the text and from the start of the line. A place is only worth reporting if
it is not the very start, and the second one only if it differs from the
first.

A character that no YAML text may contain is reported differently, since it is
found before there are lines: by the number of bytes in front of it.

## Main definitions

* `Mark`: A place in a text.
* `Problem`, `Activity`: What was found, and what was being read.
* `Fault`: A problem with its place, and an activity with its place.
* `Fault.message`: A fault in words.
-/

namespace DartModels

namespace Yaml

/-- A place in a text, counted from 0. -/
structure Mark where
  index : Nat
  line : Nat
  column : Nat
  deriving DecidableEq

namespace Mark

/-- The start of a text. -/
def start : Mark := ⟨0, 0, 0⟩

/-- Whether a place lies at the start of the text. -/
def isStart (m : Mark) : Bool :=
  m.line = 0 && m.column = 0

/-- A place in words; people count from 1. -/
def message (m : Mark) : String :=
  s!"line {m.line + 1} column {m.column + 1}"

/-- Whether two places are the same to a reader. -/
def sameSpot (a b : Mark) : Bool :=
  a.line = b.line && a.column = b.column

end Mark

/-- What is wrong at a place. -/
inductive Problem where
  | controlCharacter
  | noTokenStart
  | noColon
  | keyNotAllowed
  | valueNotAllowed
  | blockEntryNotAllowed
  | unexpectedColon
  | tabInPlain
  | tabInIndent
  | zeroIndent
  | documentIndicator
  | endInQuoted
  | unknownEscape
  | badHex
  | badCodePoint
  | noCommentOrBreak
  | noAnchorName
  | noTagEnd
  | noTagUri
  | noTagBang
  | noTagBlank
  | noUriEscape
  | badUriEscape
  | noDirectiveName
  | badDirectiveName
  | unknownDirective
  | noVersionNumber
  | longVersionNumber
  | noVersionDot
  | noDirectiveBlank
  | repeatedVersion
  | repeatedTag
  | wrongVersion
  | undefinedHandle
  | noDocumentStart
  | noNodeContent
  | noDash
  | noKey
  | noCommaInSequence
  | noCommaInMapping
  deriving DecidableEq

/-- A problem in words. -/
def Problem.message : Problem → String
  | .controlCharacter => "control characters are not allowed"
  | .noTokenStart => "found character that cannot start any token"
  | .noColon => "could not find expected ':'"
  | .keyNotAllowed => "mapping keys are not allowed in this context"
  | .valueNotAllowed => "mapping values are not allowed in this context"
  | .blockEntryNotAllowed => "block sequence entries are not allowed in this context"
  | .unexpectedColon => "found unexpected ':'"
  | .tabInPlain => "found a tab character that violates indentation"
  | .tabInIndent => "found a tab character where an indentation space is expected"
  | .zeroIndent => "found an indentation indicator equal to 0"
  | .documentIndicator => "found unexpected document indicator"
  | .endInQuoted => "found unexpected end of stream"
  | .unknownEscape => "found unknown escape character"
  | .badHex => "did not find expected hexdecimal number"
  | .badCodePoint => "found invalid Unicode character escape code"
  | .noCommentOrBreak => "did not find expected comment or line break"
  | .noAnchorName => "did not find expected alphabetic or numeric character"
  | .noTagEnd => "did not find the expected '>'"
  | .noTagUri => "did not find expected tag URI"
  | .noTagBang => "did not find expected '!'"
  | .noTagBlank => "did not find expected whitespace or line break"
  | .noUriEscape => "did not find URI escaped octet"
  | .badUriEscape => "found an incorrect UTF-8 octet"
  | .noDirectiveName => "could not find expected directive name"
  | .badDirectiveName => "found unexpected non-alphabetical character"
  | .unknownDirective => "found unknown directive name"
  | .noVersionNumber => "did not find expected version number"
  | .longVersionNumber => "found extremely long version number"
  | .noVersionDot => "did not find expected digit or '.' character"
  | .noDirectiveBlank => "did not find expected whitespace"
  | .repeatedVersion => "found duplicate %YAML directive"
  | .repeatedTag => "found duplicate %TAG directive"
  | .wrongVersion => "found incompatible YAML document"
  | .undefinedHandle => "found undefined tag handle"
  | .noDocumentStart => "did not find expected <document start>"
  | .noNodeContent => "did not find expected node content"
  | .noDash => "did not find expected '-' indicator"
  | .noKey => "did not find expected key"
  | .noCommaInSequence => "did not find expected ',' or ']'"
  | .noCommaInMapping => "did not find expected ',' or '\x7d'"

/-- What was being read when a problem turned up. -/
inductive Activity where
  | nextToken
  | simpleKey
  | plainScalar
  | quotedScalar
  | quotedEscape
  | blockScalar
  | anchor
  | alias
  | tag
  | tagUri
  | directive
  | versionDirective
  | tagDirective
  | tagDirectiveHandle
  | tagDirectiveEnd
  | tagDirectiveUri
  | node
  | blockNode
  | flowNode
  | blockCollection
  | blockMapping
  | flowSequence
  | flowMapping
  deriving DecidableEq

/-- An activity in words. -/
def Activity.message : Activity → String
  | .nextToken => "while scanning for the next token"
  | .simpleKey => "while scanning a simple key"
  | .plainScalar => "while scanning a plain scalar"
  | .quotedScalar => "while scanning a quoted scalar"
  | .quotedEscape => "while parsing a quoted scalar"
  | .blockScalar => "while scanning a block scalar"
  | .anchor => "while scanning an anchor"
  | .alias => "while scanning an alias"
  | .tag => "while scanning a tag"
  | .tagUri => "while parsing a tag"
  | .directive => "while scanning a directive"
  | .versionDirective => "while scanning a %YAML directive"
  | .tagDirective => "while scanning a %TAG directive"
  | .tagDirectiveHandle => "while scanning a tag directive"
  | .tagDirectiveEnd => "while parsing a tag directive"
  | .tagDirectiveUri => "while parsing a %TAG directive"
  | .node => "while parsing a node"
  | .blockNode => "while parsing a block node"
  | .flowNode => "while parsing a flow node"
  | .blockCollection => "while parsing a block collection"
  | .blockMapping => "while parsing a block mapping"
  | .flowSequence => "while parsing a flow sequence"
  | .flowMapping => "while parsing a flow mapping"

/-- A fault of the form of a text. -/
structure Fault where
  problem : Problem
  /-- Where the problem is. -/
  place : Mark
  /-- The number of bytes before the problem, where it was found before there
      were lines. -/
  offset : Nat
  /-- What was being read, and where that began. -/
  context : Option (Activity × Mark)
  deriving DecidableEq

namespace Fault

/-- A problem at a place. -/
def plain (problem : Problem) (place : Mark) : Fault :=
  ⟨problem, place, 0, none⟩

/-- A problem at a place, found during an activity that began earlier. -/
def during (activity : Activity) (began : Mark) (problem : Problem) (place : Mark) : Fault :=
  ⟨problem, place, 0, some (activity, began)⟩

/-- A fault in words. -/
def message (f : Fault) : String :=
  let place :=
    if !f.place.isStart then s!" at {f.place.message}"
    else if f.offset ≠ 0 then s!" at position {f.offset}"
    else ""
  let context :=
    match f.context with
    | none => ""
    | some (activity, began) =>
        let spot :=
          if !began.isStart && !began.sameSpot f.place then s!" at {began.message}" else ""
        s!", {activity.message}" ++ spot
  f.problem.message ++ place ++ context

end Fault

end Yaml

end DartModels
