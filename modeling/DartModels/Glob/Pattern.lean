/-!
# File name patterns

Patterns that stand for a set of names.

A question mark stands for one character, a star for any number of them, and
brackets for one character of a class, or for one outside it if an exclamation
mark leads. All other characters stand for themselves. Two stars are different:
they stand for any number of directories, and so they have to fill a segment
of the path by themselves.

A closing bracket right behind the opening one, or behind the exclamation
mark, belongs to the class, so no class is empty.

Faults are placed by counting characters from the beginning of the pattern.

## Main definitions

* `Glob.Atom`, `Glob.Pattern`: Patterns.
* `Glob.SyntaxError`: What is wrong with a pattern, and where.
* `Pattern.parse`: The pattern that a text spells.
* `Pattern.accepts`: Whether a name belongs to a pattern.
* `Pattern.literal?`: The only name of a pattern without wildcards.
-/

namespace DartModels

namespace Glob

/-- A member of a class of characters. -/
inductive Member where
  | single (c : Char)
  | range (low high : Char)
  deriving DecidableEq

/-- Whether a character belongs to a member of a class. -/
def Member.contains (c : Char) : Member → Bool
  | .single d => c == d
  | .range low high => low ≤ c && c ≤ high

/-- A piece of a pattern. -/
inductive Atom where
  | char (c : Char)
  | anyChar
  | anySequence
  /-- Any number of directories. -/
  | anyDirectories
  | oneOf (members : List Member)
  | noneOf (members : List Member)
  deriving DecidableEq

/-- A pattern. -/
abbrev Pattern := List Atom

/-- What can be wrong with a pattern. -/
inductive Cause where
  | tooManyStars
  | starsNotAlone
  | badClass
  deriving DecidableEq

/-- A cause in words. -/
def Cause.message : Cause → String
  | .tooManyStars => "wildcards are either regular `*` or recursive `**`"
  | .starsNotAlone => "recursive wildcards must form a single path component"
  | .badClass => "invalid range pattern"

/-- What is wrong with a pattern, and how many characters stand before it. -/
structure SyntaxError where
  cause : Cause
  position : Nat
  deriving DecidableEq

/-- A fault in words. -/
def SyntaxError.message (e : SyntaxError) : String :=
  s!"Pattern syntax error near position {e.position}: {e.cause.message}"

namespace Pattern

/-- The members of a class. A dash between two characters makes a range. -/
def members : List Char → List Member
  | a :: '-' :: b :: rest => .range a b :: members rest
  | a :: rest => .single a :: members rest
  | [] => []

/-- Cut a text at the first closing bracket. -/
def untilBracket? : List Char → Option (List Char × List Char)
  | [] => none
  | ']' :: rest => some ([], rest)
  | c :: rest => (untilBracket? rest).map fun (cs, r) => (c :: cs, r)

/-- A class behind its opening bracket. -/
def class? : List Char → Option (Atom × List Char)
  | '!' :: c :: rest =>
      (untilBracket? rest).map fun (cs, r) => (.noneOf (members (c :: cs)), r)
  | ['!'] => none
  | c :: rest => (untilBracket? rest).map fun (cs, r) => (.oneOf (members (c :: cs)), r)
  | [] => none

/-- Read a pattern. `total` is the length of the whole text, by which faults
    are placed, `opens` tells whether a segment of the path begins here, and
    `fuel` bounds the number of characters that are left. -/
def parseUpTo (total : Nat) : Nat → Bool → List Char → Except SyntaxError Pattern
  | 0, _, _ => .ok []
  | fuel + 1, opens, s =>
      let position := total - s.length
      match s with
      | [] => .ok []
      | '?' :: rest => do return .anyChar :: (← parseUpTo total fuel false rest)
      | '*' :: '*' :: '*' :: _ => .error ⟨.tooManyStars, position + 2⟩
      | '*' :: '*' :: rest =>
          -- Two stars fill a segment, so one has to begin here and end behind them.
          if !opens then .error ⟨.starsNotAlone, position - 1⟩
          else
            match rest with
            | [] => .ok [.anyDirectories]
            | '/' :: more => do return .anyDirectories :: (← parseUpTo total fuel true more)
            | _ => .error ⟨.starsNotAlone, position + 2⟩
      | '*' :: rest => do return .anySequence :: (← parseUpTo total fuel false rest)
      | '[' :: rest =>
          match class? rest with
          | some (atom, more) => do return atom :: (← parseUpTo total fuel false more)
          | none => .error ⟨.badClass, position⟩
      | c :: rest => do return .char c :: (← parseUpTo total fuel (c == '/') rest)

/-- The pattern that a text spells. -/
def parse (text : String) : Except SyntaxError Pattern :=
  parseUpTo text.toList.length (text.toList.length + 1) true text.toList

/-- Whether some end of a text, the text itself among them, satisfies a
    test. -/
def anyEnd (test : List Char → Bool) : List Char → Bool
  | [] => test []
  | c :: rest => test (c :: rest) || anyEnd test rest

/-- Whether a name belongs to a pattern. -/
def accepts : Pattern → List Char → Bool
  | [], name => name.isEmpty
  | .anySequence :: rest, name => anyEnd (accepts rest) name
  | .anyDirectories :: rest, name => anyEnd (accepts rest) name
  | .char c :: rest, d :: name => c == d && accepts rest name
  | .anyChar :: rest, _ :: name => accepts rest name
  | .oneOf ms :: rest, d :: name => ms.any (Member.contains d) && accepts rest name
  | .noneOf ms :: rest, d :: name => !ms.any (Member.contains d) && accepts rest name
  | _ :: _, [] => false

/-- The only name of a pattern without wildcards. -/
def literal? : Pattern → Option (List Char)
  | [] => some []
  | .char c :: rest => (literal? rest).map (c :: ·)
  | _ => none

/-- Whether a pattern stands for any number of directories. -/
def isRecursive (p : Pattern) : Bool :=
  p.contains .anyDirectories

/-- Whether a pattern begins with a point that is written out. -/
def beginsWithPoint : Pattern → Bool
  | .char '.' :: _ => true
  | _ => false

end Pattern

end Glob

end DartModels
