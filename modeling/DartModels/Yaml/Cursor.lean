import DartModels.Yaml.Fault

/-!
# Moving through a YAML text

What is left of a text together with the place where it begins, and the
elementary moves: over one character, over a line break, over a run of
characters.

Five characters break lines, and a carriage return with a line feed behind it
is one break. Inside a value the three ASCII breaks and the next-line
character are all the same and become a line feed. The two Unicode separators
keep their identity.

Values can stretch over several lines. The blanks and breaks between two of
their words are collected in a `Spacing` and only turned into text when
another word follows: a single break folds into a space, further breaks are
kept, and blanks count only within a line.

## Main definitions

* `Cursor`: What is left of a text, and where it begins.
* `Cursor.skip`, `Cursor.skipBreak`, `Cursor.skipWhile`: The moves.
* `Spacing.fold`: Blanks and breaks between words as text.
-/

namespace DartModels

namespace Yaml

/-- Whether a character breaks lines. -/
def isBreak (c : Char) : Bool :=
  c == '\n' || c == '\r' || c == '\u0085' || c == '\u2028' || c == '\u2029'

/-- Whether a character is a space or a tab. -/
def isBlank (c : Char) : Bool :=
  c == ' ' || c == '\t'

/-- Whether a text ends here, or goes on with a blank or a break. -/
def atGap (s : List Char) : Bool :=
  match s with
  | [] => true
  | c :: _ => isBlank c || isBreak c

/-- Whether a text ends here, or goes on with a break. -/
def atLineEnd (s : List Char) : Bool :=
  match s with
  | [] => true
  | c :: _ => isBreak c

/-- Whether a character can stand in the names of anchors and directives. -/
def isWordChar (c : Char) : Bool :=
  c.isAlphanum || c == '_' || c == '-'

/-- What is left of a text, and the place where it begins. -/
structure Cursor where
  rest : List Char
  mark : Mark

namespace Cursor

/-- The place behind a character that breaks no line. -/
def past (m : Mark) : Mark :=
  { m with index := m.index + 1, column := m.column + 1 }

/-- The place behind a break of `width` characters. -/
def nextLine (m : Mark) (width : Nat) : Mark :=
  ⟨m.index + width, m.line + 1, 0⟩

/-- Move over one character. -/
def skip (c : Cursor) : Cursor :=
  match c.rest with
  | [] => c
  | _ :: rest => ⟨rest, past c.mark⟩

/-- Move over `n` characters. -/
def skipN (n : Nat) (c : Cursor) : Cursor :=
  Nat.repeat skip n c

/-- The text that the break at the cursor stands for, and the cursor behind
    it. -/
def takeBreak (c : Cursor) : List Char × Cursor :=
  match c.rest with
  | '\r' :: '\n' :: rest => (['\n'], ⟨rest, nextLine c.mark 2⟩)
  | b :: rest =>
      if b == '\u2028' || b == '\u2029' then ([b], ⟨rest, nextLine c.mark 1⟩)
      else if isBreak b then (['\n'], ⟨rest, nextLine c.mark 1⟩)
      else ([], c)
  | [] => ([], c)

/-- Move over a break. -/
def skipBreak (c : Cursor) : Cursor :=
  c.takeBreak.2

/-- Move over the characters of a line that satisfy `p`. -/
def skipWhile (p : Char → Bool) (c : Cursor) : Cursor :=
  let run := (c.rest.takeWhile p).length
  ⟨c.rest.drop run, { c.mark with index := c.mark.index + run, column := c.mark.column + run }⟩

/-- The characters of a line that satisfy `p`, and the cursor behind them. -/
def takeWhile (p : Char → Bool) (c : Cursor) : List Char × Cursor :=
  (c.rest.takeWhile p, c.skipWhile p)

/-- Move over the rest of a line. -/
def skipLine (c : Cursor) : Cursor :=
  c.skipWhile fun x => !isBreak x

/-- The character at the cursor. -/
def head? (c : Cursor) : Option Char :=
  c.rest.head?

/-- Whether the cursor is at this character. -/
def isAt (c : Cursor) (x : Char) : Bool :=
  c.rest.head? == some x

/-- Whether a line begins here with three times `x` and a gap behind it. -/
def atIndicator (c : Cursor) (x : Char) : Bool :=
  c.mark.column = 0 && c.rest.take 3 == [x, x, x] && atGap (c.rest.drop 3)

/-- Whether a document begins or ends here. -/
def atDocument (c : Cursor) : Bool :=
  c.atIndicator '-' || c.atIndicator '.'

end Cursor

/-- The blanks and breaks between two words of a value. -/
structure Spacing where
  /-- The blanks before the first break. -/
  blanks : List Char
  /-- The first break. -/
  first : List Char
  /-- The further breaks. -/
  more : List Char
  /-- Whether there was a break. -/
  broken : Bool

namespace Spacing

/-- No blanks and no breaks. -/
def none : Spacing := ⟨[], [], [], false⟩

/-- A break that was escaped and leaves no text. -/
def escapedBreak : Spacing := ⟨[], [], [], true⟩

/-- Spacing as text. -/
def fold (s : Spacing) : List Char :=
  if s.broken then
    if s.first = ['\n'] then (if s.more.isEmpty then [' '] else s.more) else s.first ++ s.more
  else s.blanks

/-- Collect the blanks and breaks at a cursor. A tab behind a break is a fault
    if it stands left of column `margin`. -/
def collect (margin : Nat) (tab : Mark → Fault) :
    Nat → Spacing → Cursor → Except Fault (Spacing × Cursor)
  | 0, s, c => .ok (s, c)
  | fuel + 1, s, c =>
      match c.rest with
      | [] => .ok (s, c)
      | x :: _ =>
          if isBlank x then
            if s.broken then
              -- Behind a break blanks are indentation and leave no text.
              if x == '\t' && c.mark.column < margin then .error (tab c.mark)
              else collect margin tab fuel s c.skip
            else collect margin tab fuel { s with blanks := s.blanks ++ [x] } c.skip
          else if isBreak x then
            let (b, c) := c.takeBreak
            if s.broken then collect margin tab fuel { s with more := s.more ++ b } c
            else collect margin tab fuel ⟨[], b, s.more, true⟩ c
          else .ok (s, c)

end Spacing

end Yaml

end DartModels
