import DartModels.Shape.Table

/-!
# Joining shapes

The shape of a place where several values were seen: the elements of one
array, or the values of one key in objects that are becoming one class.

On shapes without classes the join is the least upper bound of an order: null
lies below everything, everything lies below dynamic, an integer lies below a
double, and lists are ordered as their elements are. Nothing else is
comparable, so values of different kinds have no bound but dynamic.

Two classes are joined by making them one in the class table. Their keys are
united. What both have is joined in turn, and what only one of them has becomes
nullable. The join of the fields may reach the two classes again, since a class
can mention itself, directly or through others. That is why one of them gives
way before its fields are looked at.

The recursion is split in two to make its end visible. Within a shape it
follows the nesting of lists, and how classes are merged is a parameter. Over
classes it is a recursion on how many merges may still be nested. Each merge
leaves one live class less than it found before it goes on to the fields, so
the number of live classes is enough.

## Main definitions

* `Shape.joinWith`, `Slot.joinWith`: The join, given how classes are merged.
* `Field.unionWith`: The fields of two classes united.
* `ClassTable.mergeClasses`: Two classes made one.
* `ClassTable.joinSlots`, `ClassTable.joinAll`: The join against a table.

## Theorems

* `Shape.joinWith_null_left`: Null is neutral.
-/

namespace DartModels

/-- How two classes of a table are made one: the result is the class that
    stays and the table after it. -/
abbrev ClassMerge := ClassTable → ClassId → ClassId → ClassId × ClassTable

namespace Shape

/-- The join of two shapes, given how classes are merged. -/
def joinWith (merge : ClassMerge) (t : ClassTable) : Shape → Shape → Shape × ClassTable
  | .primitive .null, y => (y, t)
  | x, .primitive .null => (x, t)
  | .primitive .dynamic, _ => (dynamic, t)
  | _, .primitive .dynamic => (dynamic, t)
  | .primitive .int, .primitive .double => (.primitive .double, t)
  | .primitive .double, .primitive .int => (.primitive .double, t)
  | .primitive p, .primitive q => (if p = q then .primitive p else dynamic, t)
  | .list x n, .list y m =>
      let (z, t) := joinWith merge t x y
      (.list z (n || m), t)
  | .ref a, .ref b =>
      let (c, t) := merge t a b
      (.ref c, t)
  | _, _ => (dynamic, t)

theorem joinWith_null_left (merge : ClassMerge) (t : ClassTable) (s : Shape) :
    joinWith merge t null s = (s, t) := by
  cases s <;> rfl

end Shape

namespace Slot

/-- The join of two slots: it may be null if either may. -/
def joinWith (merge : ClassMerge) (t : ClassTable) (a b : Slot) : Slot × ClassTable :=
  let (shape, t) := a.shape.joinWith merge t b.shape
  (⟨shape, a.nullable || b.nullable⟩, t)

end Slot

namespace Field

/-- The first field for a key, if there is one. -/
def find? (fields : List Field) (key : String) : Option Field :=
  fields.find? (·.key = key)

/-- Put a field where the first one with its key stands, or at the end. -/
def insert (fields : List Field) (f : Field) : List Field :=
  match fields with
  | [] => [f]
  | g :: rest => if g.key = f.key then f :: rest else g :: insert rest f

/-- A field that may be null. -/
def optional (f : Field) : Field :=
  { f with slot := { f.slot with nullable := true } }

/-- Take a field of the second class into the fields united so far: joined
    with the one that has its key, or as a new one that may be null. -/
def uniteWith (merge : ClassMerge) (fields : List Field) (t : ClassTable) (f : Field) :
    List Field × ClassTable :=
  match find? fields f.key with
  | some g =>
      let (slot, t) := g.slot.joinWith merge t f.slot
      (insert fields { g with slot }, t)
  | none => (fields ++ [optional f], t)

/-- Take the fields of the second class one after the other. -/
def uniteAllWith (merge : ClassMerge) (fields : List Field) (t : ClassTable) :
    List Field → List Field × ClassTable
  | [] => (fields, t)
  | f :: rest =>
      let (fields, t) := uniteWith merge fields t f
      uniteAllWith merge fields t rest

/-- Fields under names derived from their keys, all different. -/
def withNames (fields : List Field) : List Field :=
  List.zipWith (fun f name => { f with name }) fields
    (Identifier.distinctFieldNames (fields.map Field.key))

/-- The fields of two classes united: first those of `as`, then the new ones
    of `bs`. A key that is missing on one side may be null. -/
def unionWith (merge : ClassMerge) (t : ClassTable) (as bs : List Field) :
    List Field × ClassTable :=
  let (fields, t) := uniteAllWith merge (as.foldl insert []) t bs
  let fields := fields.map fun f => if (find? bs f.key).isSome then f else optional f
  (withNames fields, t)

end Field

namespace ClassTable

/-- Two classes made one, with at most `n` merges nested. -/
def mergeUpTo : Nat → ClassMerge
  | 0, t, a, _ => (t.resolve a, t)
  | n + 1, t, a, b =>
      let a := t.resolve a
      let b := t.resolve b
      if a = b then (a, t)
      else
        match t.find? a, t.find? b with
        | some ca, some cb =>
            -- Both lists of fields are those from before one class gave way.
            let (survivor, t) := t.absorb a b
            let (fields, t) := Field.unionWith (mergeUpTo n) t ca.fields cb.fields
            t.replaceFields survivor fields
        | _, _ => (a, t)

/-- Two classes made one. The result is the class that both numbers stand for
    from now on. -/
def mergeClasses : ClassMerge := fun t a b => mergeUpTo t.size t a b

/-- The join of two slots over the classes of a table. -/
def joinSlots (t : ClassTable) (a b : Slot) : Slot × ClassTable :=
  Slot.joinWith mergeClasses t a b

/-- The join of a slot with those that follow it. -/
def joinOnto (t : ClassTable) (acc : Slot) : List Slot → Slot × ClassTable
  | [] => (acc, t)
  | s :: rest =>
      let (acc, t) := t.joinSlots acc s
      joinOnto t acc rest

/-- The join of a sequence of slots, from the left; `none` if it is empty. -/
def joinAll (t : ClassTable) : List Slot → Option Slot × ClassTable
  | [] => (none, t)
  | s :: rest =>
      let (slot, t) := joinOnto t s rest
      (some slot, t)

end ClassTable

end DartModels
