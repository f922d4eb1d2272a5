import DartModels.Text.Blank

/-!
# Options

What the user can choose about the generated classes, and what holds when
nothing is chosen.

Every option has a default, so the empty choice is complete. The name of the
placeholder type is kept as it was written, since it is reported back that
way; `nullTypeName` is the form in which it enters the program, without blanks
around it and never empty.

## Main definitions

* `Options`: The options with their defaults.
* `Options.nullTypeName`: The placeholder type as it is printed.
-/

namespace DartModels

/-- The options of a conversion. -/
structure Options where
  /-- Blanks for each level of indentation. -/
  indent : Nat := 2
  /-- Whether types carry question marks and parameters are required. -/
  nullSafety : Bool := true
  /-- Whether all elements of an array are joined, rather than only the first
      one looked at. -/
  mergeArrays : Bool := true
  /-- Whether classes get a `copyWith` method. -/
  copyWith : Bool := false
  /-- The type of what is only ever null, or of no single type. -/
  nullType : String := "dynamic"
  /-- How deep a document may be nested. -/
  maxDepth : Nat := 256
  /-- Where files are written if no place is asked for. -/
  outputFolder : Option String := none
  deriving DecidableEq

namespace Options

/-- The placeholder type where none is given. -/
def defaultNullType : String := "dynamic"

/-- The placeholder type as it is printed. -/
def nullTypeName (o : Options) : String :=
  let name := Text.trim o.nullType
  if name.isEmpty then defaultNullType else name

end Options

end DartModels
