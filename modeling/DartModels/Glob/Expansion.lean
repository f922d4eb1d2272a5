import DartModels.Files.Access
import DartModels.Glob.Pattern

/-!
# Expanding a pattern

The paths that a pattern stands for among the files at hand.

A pattern is cut at its slashes, and each segment is a pattern of names. A
segment without wildcards is not searched for: its path is made and kept if
there is something at it. Any other segment asks the directory reached so far
for its names, which are taken in order. A segment of two stars goes down into
every directory below, and the rest of the pattern is tried at each level, the
directory before what is in it.

The entries `.` and `..` are in no list of names. A segment that begins with a
point may stand for them all the same, and they come before the other names,
the parent first.

Paths at the beginning of the search are written without the directory they
are in, so `*.json` gives `a.json` and not `./a.json`.

How deep the search goes is bounded by the segments of the pattern and by the
depth of directories, and no path is deep enough for more than four thousand
of them.

## Main definitions

* `Glob.Search`: What a search has to know.
* `Search.candidates`, `Search.visit`: Its two movements.
* `Glob.expand`: The paths of a pattern.
-/

namespace DartModels

namespace Glob

/-- What a search has to know: the files at hand, the patterns of the
    segments, and whether only directories count. -/
structure Search (m : Type → Type) where
  view : Files.View m
  patterns : Array Pattern
  directoriesOnly : Bool

/-- A path of a search. It is either known to belong to the pattern, or the
    segment is given from which it is still to be tested. -/
structure Candidate where
  path : String
  segment : Option Nat

/-- A name in a directory as a path. -/
def below (directory name : String) : String :=
  if Path.isCurrent directory then name else Path.append directory name

/-- The last of a row of segments that all stand for any number of
    directories. -/
def lastRecursive (patterns : Array Pattern) : Nat → Nat → Nat
  | 0, i => i
  | fuel + 1, i =>
      match patterns[i + 1]? with
      | some p => if p.isRecursive then lastRecursive patterns fuel (i + 1) else i
      | none => i

namespace Search

variable {m : Type → Type} [Monad m]

/-- The pattern of a segment. -/
def pattern (s : Search m) (i : Nat) : Pattern :=
  s.patterns[i]?.getD []

/-- Whether a segment is the last one. -/
def isLast (s : Search m) (i : Nat) : Bool :=
  i + 1 == s.patterns.size

/-- A path that belongs to the whole pattern, unless only directories do and
    it is none. -/
def result (s : Search m) (path : String) : m (List String) := do
  if s.directoriesOnly && !(← s.view.isDirectory path) then return [] else return [path]

mutual

/-- The candidates for segment `i` in a directory, first to last. -/
def candidates (s : Search m) : Nat → Nat → String → m (List Candidate)
  | 0, _, _ => return []
  | fuel + 1, i, directory => do
      let p := s.pattern i
      let isDirectory ← s.view.isDirectory directory
      match p.literal? with
      | some name =>
          let name := String.ofList name
          -- A literal segment is not searched for, so its directory need not be listed.
          let path := below directory name
          let there ←
            if name == "." || name == ".." then pure isDirectory else s.view.isPresent path
          if there then s.advance fuel i path else return []
      | none =>
          if !isDirectory then return []
          else
            let names := (← s.view.names directory).mergeSort fun a b => a ≤ b
            let children := names.map fun name => ⟨below directory name, some i⟩
            if p.beginsWithPoint then
              let parent ← s.special fuel i directory ".."
              let same ← s.special fuel i directory "."
              return parent ++ same ++ children
            else return children

/-- A path that belongs to segment `i`, with the search going on behind it if
    there are more segments. -/
def advance (s : Search m) : Nat → Nat → String → m (List Candidate)
  | 0, _, _ => return []
  | fuel + 1, i, path =>
      if s.isLast i then return [⟨path, none⟩] else s.candidates fuel (i + 1) path

/-- One of the entries that are in no list of names. -/
def special (s : Search m) : Nat → Nat → String → String → m (List Candidate)
  | 0, _, _, _ => return []
  | fuel + 1, i, directory, name =>
      if (s.pattern i).accepts name.toList then s.advance fuel i (Path.append directory name)
      else return []

end

mutual

/-- The paths that come of a candidate. -/
def visit (s : Search m) : Nat → Candidate → m (List String)
  | 0, _ => return []
  | fuel + 1, c =>
      match c.segment with
      | none => s.result c.path
      | some i =>
          if !(s.pattern i).isRecursive then s.test fuel i c.path
          else do
            -- Several such segments in a row mean no more than one.
            let last := lastRecursive s.patterns s.patterns.size i
            let isDirectory ← s.view.isDirectory c.path
            let own ←
              if s.isLast last then pure (if isDirectory then [c.path] else [])
              else s.test fuel (last + 1) c.path
            if isDirectory then
              let inside ← s.candidates (3 * s.patterns.size + 3) last c.path
              return own ++ (← inside.mapM fun d => s.visit fuel d).flatten
            else return own

/-- The paths that come of a path by testing its name against segment `i`. -/
def test (s : Search m) : Nat → Nat → String → m (List String)
  | 0, _, _ => return []
  | fuel + 1, i, path =>
      if !((Path.name? path).map fun name => (s.pattern i).accepts name.toList).getD false then
        return []
      else if s.isLast i then s.result path
      else do
        let inside ← s.candidates (3 * s.patterns.size + 3) (i + 1) path
        return (← inside.mapM fun d => s.visit fuel d).flatten

end

end Search

/-- The segments of a pattern. A slash at the end does not begin another. -/
def segments (pattern : String) : List String :=
  let parts := pattern.splitOn "/"
  match parts.getLast? with
  | some "" => parts.dropLast
  | _ => parts

/-- Bounds the depth of directories below one another. -/
def maxDepth : Nat := 4096

/-- The paths of a pattern, in order. -/
def expand {m : Type → Type} [Monad m] (view : Files.View m) (pattern : String) :
    m (Except SyntaxError (List String)) :=
  match Pattern.parse pattern with
  | .error e => return .error e
  | .ok _ =>
      let absolute := pattern.startsWith "/"
      let start := if absolute then "/" else "."
      let parts := segments (if absolute then (pattern.drop 1).toString else pattern)
      match parts.mapM Pattern.parse with
      | .error e => return .error e
      | .ok patterns => do
          let s : Search m := ⟨view, patterns.toArray, pattern.endsWith "/"⟩
          let first ← s.candidates (3 * patterns.length + 3) 0 start
          let fuel := 2 * (patterns.length + maxDepth)
          return .ok (← first.mapM fun c => s.visit fuel c).flatten

end Glob

end DartModels
