/-!
# Paths into a document

The place of a value, spelled the way it is reported: `$.data.items[3]`.

A step is a key or an index. A key that is made of letters, digits and
underscores follows a point. Any other key, the empty one included, stands in
brackets and quotes, and there a backslash goes before each quote and each
backslash of the key. The brackets of an index hold digits only, so the three
forms cannot be mistaken for one another.

## Main definitions

* `Step`: A key or an index.
* `Path.render`: A path in words.
-/

namespace DartModels

/-- One step from a value to a part of it. -/
inductive Step where
  | key (name : String)
  | index (i : Nat)
  deriving DecidableEq

namespace Path

/-- Whether a key can follow a point. -/
def isPlain (key : List Char) : Bool :=
  !key.isEmpty && key.all fun c => c.isAlphanum || c == '_'

/-- A character of a quoted key. -/
def escape (c : Char) : List Char :=
  if c = '\\' then ['\\', '\\'] else if c = '\'' then ['\\', '\''] else [c]

/-- A step in words. -/
def renderStep : Step → List Char
  | .key name =>
      let key := name.toList
      if isPlain key then '.' :: key
      else ['[', '\''] ++ (key.flatMap escape ++ ['\'', ']'])
  | .index i => '[' :: ((toString i).toList ++ [']'])

/-- A path in words, from the root of the document. -/
def render (path : List Step) : String :=
  String.ofList ('$' :: path.flatMap renderStep)

end Path

end DartModels
