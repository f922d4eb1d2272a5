/-!
# Shapes

What is known about the values that were seen in one place of a document: the
vocabulary that inference, merging and rendering share.

A shape is a primitive, a list of one element shape, or a reference to a class
by its number. Classes are referred to and never contained, which is what lets
a class mention itself. Two primitives are not types of any value: `null` is
the shape of a place where nothing but nulls, or nothing at all, has been
seen, and `dynamic` is that of a place where the values do not fit together.

Nullability is not part of a shape but travels beside it, in a slot. A list
therefore carries, with its element shape, whether the elements may be null.

A class is compared with another by its signature, a text that spells out its
keys with their slots in order. The name of a class, its number and the field
names derived from its keys are left out, for they do not distinguish one
object from another. The keys themselves go in as they are.

## Main definitions

* `Primitive`, `Shape`, `Slot`: What a place holds.
* `Field`, `ClassDef`: What an object holds.
* `Shape.mapIds`, `Shape.ids`: The classes that a shape refers to.
* `ClassDef.signature`: The text that classes are compared by.

## Theorems

* `Shape.mapIds_id`: Renaming no class changes nothing.
* `Shape.mapIds_mapIds`: Two renamings make one.
* `Shape.mapIds_congr`: Only the references of a shape matter.
* `Shape.ids_mapIds`: Renaming acts on the references one by one.
-/

namespace DartModels

/-- The number of a class. Classes are numbered from 0 in the order of their
    registration, so the smaller number was discovered first. -/
abbrev ClassId := Nat

/-- The shapes without parts. -/
inductive Primitive where
  | bool
  | int
  | double
  | string
  /-- Nothing but nulls has been seen. -/
  | null
  /-- Values that do not fit together have been seen. -/
  | dynamic
  deriving DecidableEq

/-- What the values of one place have in common. -/
inductive Shape where
  | primitive (p : Primitive)
  /-- A list, with the shape of its elements and whether they may be null. -/
  | list (item : Shape) (nullable : Bool)
  | ref (id : ClassId)
  deriving DecidableEq

/-- A shape with its nullability. -/
structure Slot where
  shape : Shape
  nullable : Bool
  deriving DecidableEq

/-- A field of a class: its name in the program, its key in the document, and
    what it holds. -/
structure Field where
  name : String
  key : String
  slot : Slot
  deriving DecidableEq

/-- A class: its number, its name, and its fields in the order in which their
    keys were first seen. -/
structure ClassDef where
  id : ClassId
  name : String
  fields : List Field
  deriving DecidableEq

namespace Primitive

/-- The word for a primitive in signatures. -/
def word : Primitive → String
  | .bool => "bool"
  | .int => "int"
  | .double => "double"
  | .string => "string"
  | .null => "null"
  | .dynamic => "dynamic"

end Primitive

namespace Shape

/-- The shape of a place where nothing but nulls has been seen. -/
abbrev null : Shape := .primitive .null

/-- The shape of a place where values that do not fit together have been
    seen. -/
abbrev dynamic : Shape := .primitive .dynamic

/-- Rename every class that a shape refers to. -/
def mapIds (f : ClassId → ClassId) : Shape → Shape
  | .primitive p => .primitive p
  | .list item nullable => .list (mapIds f item) nullable
  | .ref id => .ref (f id)

/-- The classes that a shape refers to, at any depth. -/
def ids : Shape → List ClassId
  | .primitive _ => []
  | .list item _ => ids item
  | .ref id => [id]

/-- The spelling of a shape in signatures. -/
def text : Shape → List Char
  | .primitive p => p.word.toList
  | .list item nullable =>
      "list<".toList ++ (text item ++ (if nullable then ['?', '>'] else ['>']))
  | .ref id => '#' :: (toString id).toList

theorem mapIds_id (s : Shape) : s.mapIds id = s := by
  induction s with
  | primitive p => rfl
  | list item nullable ih => simp [mapIds, ih]
  | ref i => rfl

theorem mapIds_mapIds (f g : ClassId → ClassId) (s : Shape) :
    (s.mapIds f).mapIds g = s.mapIds (g ∘ f) := by
  induction s with
  | primitive p => rfl
  | list item nullable ih => simp [mapIds, ih]
  | ref i => rfl

theorem mapIds_congr {f g : ClassId → ClassId} {s : Shape} (h : ∀ id ∈ s.ids, f id = g id) :
    s.mapIds f = s.mapIds g := by
  induction s with
  | primitive p => rfl
  | list item nullable ih => rw [mapIds, mapIds, ih h]
  | ref i => rw [mapIds, mapIds, h i (List.mem_singleton.mpr rfl)]

theorem ids_mapIds (f : ClassId → ClassId) (s : Shape) : (s.mapIds f).ids = s.ids.map f := by
  induction s with
  | primitive p => rfl
  | list item nullable ih => simp [mapIds, ids, ih]
  | ref i => rfl

end Shape

namespace Slot

/-- A slot that is never null. -/
def required (shape : Shape) : Slot := ⟨shape, false⟩

/-- The spelling of a slot in signatures: a question mark says that it may be
    null. -/
def text (s : Slot) : List Char :=
  s.shape.text ++ (if s.nullable then ['?'] else [])

/-- Rename every class that a slot refers to. -/
def mapIds (f : ClassId → ClassId) (s : Slot) : Slot :=
  { s with shape := s.shape.mapIds f }

end Slot

namespace Field

/-- Rename every class that a field refers to. -/
def mapIds (f : ClassId → ClassId) (field : Field) : Field :=
  { field with slot := field.slot.mapIds f }

/-- The spelling of a field in signatures. -/
def text (field : Field) : List Char :=
  field.key.toList ++ ':' :: (field.slot.text ++ [';'])

end Field

namespace ClassDef

/-- The text that tells a class from others: its keys with their slots. -/
def signature (c : ClassDef) : String :=
  String.ofList (c.fields.flatMap Field.text)

/-- The field for a key. -/
def field? (c : ClassDef) (key : String) : Option Field :=
  c.fields.find? (·.key = key)

/-- Rename every class that the fields of a class refer to. -/
def mapIds (f : ClassId → ClassId) (c : ClassDef) : ClassDef :=
  { c with fields := c.fields.map (Field.mapIds f) }

end ClassDef

end DartModels
