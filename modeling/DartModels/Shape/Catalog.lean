import DartModels.Shape.Inference

/-!
# The catalog of classes

The classes of a document as they are written out: equal ones made one, every
reference leading to a class of the catalog, and a fixed order.

The order is that of discovery, with the root last. A class is discovered when
its members are done, so what a class is made of comes before it wherever
there is no cycle.

## Main definitions

* `Catalog`: A finished table with its root.
* `Catalog.ofTable`: The catalog of a table.
* `Catalog.classes`: The classes in the order of writing.
* `Catalog.ofDocument`: The catalog of a document.
-/

namespace DartModels

/-- Classes ready to be written. -/
structure Catalog where
  table : ClassTable
  order : List ClassId
  root : ClassId

namespace Catalog

/-- The catalog of a table, whose root may have been merged. -/
def ofTable (t : ClassTable) (root : ClassId) : Catalog :=
  let t := t.foldDuplicates
  let root := t.resolve root
  ⟨t, (t.classes.map ClassDef.id).filter (· ≠ root) ++ [root], root⟩

/-- The classes in the order of writing. -/
def classes (c : Catalog) : List ClassDef :=
  c.order.filterMap c.table.find?

/-- The name of a class. -/
def nameOf (c : Catalog) (id : ClassId) : String :=
  ((c.table.find? id).map ClassDef.name).getD ""

/-- The number of classes. -/
def size (c : Catalog) : Nat :=
  c.order.length

/-- The catalog of a document whose root class is called `name`. -/
def ofDocument (o : Options) (name : String) (v : Json) : Except InferenceError Catalog :=
  match Inference.observeRoot o .empty name v with
  | (.ok root, t) => .ok (ofTable t root)
  | (.error e, _) => .error e

end Catalog

end DartModels
