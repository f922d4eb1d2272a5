import DartModels.Options.Basic

/-!
# Commands

What the program can be told to do.

There are two commands. One writes Dart classes and the other shows what was
inferred. Both say which documents to take and which options to change, and
each has its own choice of where the result goes.

Options come from three places, and a later one wins: the defaults, a file of
options, the command itself.

## Main definitions

* `Inputs`: Which documents to take.
* `Overrides`: Which options to change.
* `Command`: What to do.
* `Overrides.apply`: Options with the changes made.
-/

namespace DartModels

/-- Which documents to take, and what to take of each. -/
structure Inputs where
  /-- Paths, patterns, or a dash for standard input. -/
  sources : List String
  /-- The name of the root class, with packages in front of it. -/
  className : Option String
  /-- A pointer to the part of a document that is taken. -/
  pointer : Option String
  /-- A query that makes documents of a document. -/
  query : Option String

/-- Which options to change. -/
structure Overrides where
  /-- A file of options. -/
  file : Option String
  indent : Option Nat
  noNullSafety : Bool
  noMergeArrays : Bool
  copyWith : Bool
  nullType : Option String
  maxDepth : Option Nat

/-- Where Dart classes go. -/
inductive Destination where
  /-- Standard output, unless options or names ask for a directory. -/
  | unspecified
  /-- One file with all classes. -/
  | file (path : String)
  /-- A directory with a file for each document. -/
  | directory (path : String)
  deriving DecidableEq

/-- What to do. -/
inductive Command where
  /-- Write Dart classes. -/
  | dart (inputs : Inputs) (overrides : Overrides) (destination : Destination)
  /-- Do nothing, whatever else was asked for. -/
  | idle
  /-- Show the classes that are inferred. -/
  | inspect (inputs : Inputs) (overrides : Overrides) (file : Option String)

/-- Options with the changes made. -/
def Overrides.apply (c : Overrides) (o : Options) : Options where
  indent := c.indent.getD o.indent
  nullSafety := o.nullSafety && !c.noNullSafety
  mergeArrays := o.mergeArrays && !c.noMergeArrays
  copyWith := o.copyWith || c.copyWith
  nullType := c.nullType.getD o.nullType
  maxDepth := c.maxDepth.getD o.maxDepth
  outputFolder := o.outputFolder

end DartModels
