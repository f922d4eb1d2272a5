import DartModels.Dart.Expr
import DartModels.Shape.Catalog

/-!
# Reading and writing a field

The type of a slot in the generated program, the expression that reads a value
of that type out of decoded JSON, and the one that writes it back.

The three follow the shape side by side. A read casts what it finds to the type
that the field is declared with, and a write undoes a read: primitives are
their own JSON, classes and lists of them are turned back. What needs no
turning back is written as it stands, which is why `write?` may answer that
there is nothing to do.

Null enters in two ways. Under null safety a value can be null only where its
slot says so, and its type then carries the question mark. Without null safety
any value can be null and no type says so, and every access has to be guarded.

The placeholder stands for whatever has no type of its own. It is `dynamic`
unless the user names another type, and only `dynamic` takes a decoded value
without a cast.

## Main definitions

* `typeOf`, `slotType`: The type of a shape and of a slot.
* `read`: The expression that reads a slot.
* `write?`: The expression that writes a slot, if it differs from the value.

## Theorems

* `guardAccess_ne_plain`, `chainAccess_ne_plain`: What may be null is guarded.
-/

namespace DartModels

namespace Dart

/-- The type with its question mark, where null safety is on, the value may be
    null, and the type does not hold null anyway. -/
def optional (o : Options) (base : Ty) (nullable : Bool) : Ty :=
  if o.nullSafety && nullable && !base.holdsNull then .nullable base else base

/-- The type of a shape. -/
def typeOf (o : Options) (c : Catalog) : Shape → Ty
  | .primitive .bool => .named "bool"
  | .primitive .int => .named "int"
  | .primitive .double => .named "double"
  | .primitive .string => .named "String"
  | .primitive .null => .named o.nullTypeName
  | .primitive .dynamic => .named o.nullTypeName
  | .list item nullable => .list (optional o (typeOf o c item) nullable)
  | .ref id => .named (c.nameOf id)

/-- The type of a slot. -/
def slotType (o : Options) (c : Catalog) (s : Slot) : Ty :=
  optional o (typeOf o c s.shape) s.nullable

/-- Whether a value with this nullability can be null when the program runs. -/
def canBeNull (o : Options) (nullable : Bool) : Bool :=
  nullable || !o.nullSafety

/-- A type with a question mark where null safety is on and the value may be
    null. -/
def marked (o : Options) (base : Ty) (nullable : Bool) : Ty :=
  if o.nullSafety && nullable then .nullable base else base

/-- The access to a value that may be null by a single member. -/
def guardAccess (o : Options) (nullable : Bool) : Access :=
  if canBeNull o nullable then .nullAware else .plain

/-- The access to a list that may be null by a chain of members. -/
def chainAccess (o : Options) (nullable : Bool) : Access :=
  if !canBeNull o nullable then .plain
  else if o.nullSafety then .nullAware else .nullAwareThroughout

theorem guardAccess_ne_plain {o : Options} {nullable : Bool} (hn : nullable = true) :
    guardAccess o nullable ≠ .plain := by
  simp only [guardAccess, canBeNull, hn, Bool.true_or, if_true, ne_eq, reduceCtorEq,
    not_false_eq_true]

theorem chainAccess_ne_plain {o : Options} {nullable : Bool} (hn : nullable = true) :
    chainAccess o nullable ≠ .plain := by
  rw [chainAccess, canBeNull, hn, Bool.true_or]
  cases o.nullSafety <;> decide

/-- The variable for the elements of a list that is nested `depth` lists deep.
    Each level has its own, so an inner one does not hide an outer one. -/
def elementVar (depth : Nat) : String :=
  if depth = 0 then "e" else "e" ++ toString depth

/-- The expression that reads a value of this shape from the decoded value
    `source`. -/
def read (o : Options) (c : Catalog) (source : Expr) (depth : Nat) (nullable : Bool) :
    Shape → Expr
  | .primitive .bool => .cast source (marked o (.named "bool") nullable)
  | .primitive .int => .cast source (marked o (.named "int") nullable)
  | .primitive .string => .cast source (marked o (.named "String") nullable)
  | .primitive .double =>
      .toDouble (.cast source (marked o (.named "num") nullable)) (guardAccess o nullable)
  | .primitive .null => placeholder
  | .primitive .dynamic => placeholder
  | .ref id =>
      let call := Expr.fromJson (c.nameOf id) (.cast source .jsonMap)
      if canBeNull o nullable then .unlessNull source call else call
  | .list item itemNullable =>
      let e := elementVar depth
      .mapList (.cast source (marked o (.list .dynamic) nullable)) (chainAccess o nullable) e
        (read o c (.var e) (depth + 1) itemNullable item)
where
  /-- The read of a value without a type of its own. -/
  placeholder : Expr :=
    if o.nullTypeName == "dynamic" then source
    else .cast source (optional o (.named o.nullTypeName) nullable)

/-- The expression that turns the value `source` of this shape back into JSON;
    `none` if it is JSON as it stands. -/
def write? (o : Options) (source : Expr) (depth : Nat) (nullable : Bool) : Shape → Option Expr
  | .primitive _ => none
  | .ref _ => some (.toJson source (guardAccess o nullable))
  | .list item itemNullable =>
      let e := elementVar depth
      (write? o (.var e) (depth + 1) itemNullable item).map fun body =>
        .mapList source (chainAccess o nullable) e body

/-- The expression that reads a field. -/
def readField (o : Options) (c : Catalog) (f : Field) : Expr :=
  read o c (.entry f.key) 0 f.slot.nullable f.slot.shape

/-- The expression that writes a field. -/
def writeField (o : Options) (f : Field) : Expr :=
  (write? o (.var f.name) 0 f.slot.nullable f.slot.shape).getD (.var f.name)

end Dart

end DartModels
