import DartModels.Files.Path

/-!
# Access to files

What a program asks of a file system, apart from any file system.

Looking and changing are two interfaces. A program that has only the first in
hand cannot change anything, and that is how it is arranged that a run which
fails before it comes to writing leaves every file as it was. Both interfaces
are open in the kind of effect, so the same program runs on a directory tree
that is a value and on the files of a machine.

Directories on the way to a file are made from the outside in, and those that
exist are left alone. Whatever else stands in the way is reported as the
system words it.

## Main definitions

* `Files.Fault`: Why a file system refuses.
* `Files.checkPath`: Which paths are refused at once.
* `Files.View`, `Files.Sink`: Looking and changing.
* `Files.readText`: A file as text.
* `Files.makeDirectories`, `Files.writeText`: Writing a file with the
  directories it needs.
-/

namespace DartModels

namespace Files

/-- Why a file system refuses. -/
inductive Fault where
  | notFound
  | exists
  | notDirectory
  | isDirectory
  | nameTooLong
  /-- The path contains a character that no path may contain. -/
  | badPath
  /-- The content is not UTF-8. -/
  | notText
  | other (description : String)
  deriving DecidableEq

/-- A fault in words. -/
def Fault.message : Fault → String
  | .notFound => "No such file or directory (os error 2)"
  | .exists => "File exists (os error 17)"
  | .notDirectory => "Not a directory (os error 20)"
  | .isDirectory => "Is a directory (os error 21)"
  | .nameTooLong => "File name too long (os error 36)"
  | .badPath => "file name contained an unexpected NUL byte"
  | .notText => "stream did not contain valid UTF-8"
  | .other description => description

/-- The greatest number of bytes in a segment of a path. -/
def maxSegment : Nat := 255

/-- The least number of bytes that is too many for a path. -/
def pathLimit : Nat := 4096

/-- Refuse a path that leads nowhere whatever files there are. -/
def checkPath (path : String) : Except Fault Unit :=
  if path.toList.contains '\x00' then .error .badPath
  else if path.isEmpty then .error .notFound
  else if pathLimit ≤ path.utf8ByteSize then .error .nameTooLong
  else .ok ()

/-- Looking at files. -/
structure View (m : Type → Type) where
  /-- The content of a file. -/
  read : String → m (Except Fault ByteArray)
  /-- Whether there is anything at a path. -/
  isPresent : String → m Bool
  /-- Whether there is a directory at a path. -/
  isDirectory : String → m Bool
  /-- The names in a directory, in any order. -/
  names : String → m (List String)

/-- Changing files. -/
structure Sink (m : Type → Type) where
  /-- Make a directory in an existing one. -/
  makeDirectory : String → m (Except Fault Unit)
  /-- Whether there is a directory at a path. -/
  isDirectory : String → m Bool
  /-- Give a file a new content. -/
  write : String → String → m (Except Fault Unit)

/-- Bytes as text. -/
def decode (content : ByteArray) : Except Fault String :=
  match String.fromUTF8? content with
  | some s => .ok s
  | none => .error .notText

/-- A file as text. -/
def readText {m : Type → Type} [Monad m] (view : View m) (path : String) :
    m (Except Fault String) := do
  return (← view.read path).bind decode

/-- Make a directory unless it exists. -/
def ensureDirectory {m : Type → Type} [Monad m] (sink : Sink m) (path : String) :
    m (Except Fault Unit) := do
  match ← sink.makeDirectory path with
  | .ok () => return .ok ()
  | .error e => if ← sink.isDirectory path then return .ok () else return .error e

/-- Make a directory and, if need be, those it lies in. A path is longer than
    its parent, so its length bounds the number of rounds. -/
def makeDirectoriesUpTo {m : Type → Type} [Monad m] (sink : Sink m) :
    Nat → String → m (Except Fault Unit)
  | 0, _ => return .ok ()
  | fuel + 1, path => do
      if path.isEmpty then return .ok ()
      match ← ensureDirectory sink path with
      -- Only a missing parent can be helped.
      | .error .notFound =>
          match Path.parent? path with
          | none => return .error .notFound
          | some parent =>
              match ← makeDirectoriesUpTo sink fuel parent with
              | .ok () => ensureDirectory sink path
              | .error e => return .error e
      | r => return r

/-- Make a directory and, if need be, those it lies in. -/
def makeDirectories {m : Type → Type} [Monad m] (sink : Sink m) (path : String) :
    m (Except Fault Unit) :=
  makeDirectoriesUpTo sink (path.length + 1) path

end Files

end DartModels
