import DartModels.Dart.Source

/-!
# Conversion

A document turned into the source of its classes.

Each document is converted by itself, with a class table of its own, and the
outcome depends on nothing but the document, the name of the root class and
the options.

## Main definitions

* `SourceUnit`: The source of one class.
* `convert`: The units of a document.
* `joinUnits`: Units as one file.

## Theorems

* `convert_error_iff`: A conversion fails exactly when inference does.
-/

namespace DartModels

/-- The source of one class. -/
structure SourceUnit where
  className : String
  source : String
  deriving DecidableEq

/-- The units of a catalog, in its order. -/
def Catalog.units (o : Options) (c : Catalog) : List SourceUnit :=
  c.classes.map fun d => ⟨d.name, Dart.source o c d⟩

/-- The units of a document: the classes inside it first, and the root class,
    called `name`, last. -/
def convert (o : Options) (name : String) (v : Json) : Except InferenceError (List SourceUnit) :=
  (Catalog.ofDocument o name v).map (Catalog.units o)

/-- Units as one file, with an empty line between them. -/
def joinUnits (units : List SourceUnit) : String :=
  String.intercalate "\n" (units.map SourceUnit.source)

theorem convert_error_iff (o : Options) (name : String) (v : Json) (e : InferenceError) :
    convert o name v = .error e ↔ Catalog.ofDocument o name v = .error e := by
  unfold convert
  cases Catalog.ofDocument o name v <;> simp [Except.map]

end DartModels
