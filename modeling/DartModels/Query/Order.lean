import DartModels.Query.Value

/-!
# The order of values

Any two values can be compared. Kinds come first: `null`, the truth values,
numbers, strings, arrays, objects. Within a kind the order is the natural one,
arrays going by their items from the left. Objects go by their keys in sorted
order and only then by the values behind those keys, so the order in which the
members of an object were written does not count.

To compare objects their members have to be sorted, and to keep the comparison
a walk over two trees the sorting is done once beforehand, by `sorted`.

A double that is not a number is below everything, itself included. It is
therefore equal to nothing.

## Main definitions

* `Value.compareDoubles`: The order of doubles.
* `Value.sorted`: A value with the members of all its objects sorted by key.
* `Value.order`: The order of two values.
-/

namespace DartModels

namespace Query

namespace Value

/-- The order of doubles. The two zeros are equal. -/
def compareDoubles (a b : Float) : Ordering :=
  if a.isNaN then .lt
  else if b.isNaN then .gt
  else if a < b then .lt
  else if b < a then .gt
  else .eq

/-- The place of a kind in the order. -/
def rank : Value → Nat
  | .null => 0
  | .bool _ => 1
  | .integer _ => 2
  | .double _ => 2
  | .written _ => 2
  | .string _ => 3
  | .array _ => 4
  | .object _ => 5

/-- A value as a double. Only numbers are asked. -/
def toDouble : Value → Float
  | .integer n => Float.ofInt n
  | v => v.number?.getD 0.0

/-- Put a member where its key belongs among members sorted by key. -/
def insertSorted (key : String) (v : Value) : List (String × Value) → List (String × Value)
  | [] => [(key, v)]
  | (k, u) :: rest =>
      if k < key then (k, u) :: insertSorted key v rest else (key, v) :: (k, u) :: rest

mutual

/-- A value with the members of all its objects sorted by key. -/
def sorted : Value → Value
  | .array items => .array (sortedItems items)
  | .object members => .object (sortedMembers members)
  | v => v

/-- Items, each sorted. -/
def sortedItems : List Value → List Value
  | [] => []
  | v :: rest => sorted v :: sortedItems rest

/-- Members sorted by key, each value sorted. -/
def sortedMembers : List (String × Value) → List (String × Value)
  | [] => []
  | (k, v) :: rest => insertSorted k (sorted v) (sortedMembers rest)

end

/-- The order of two rows of keys. -/
def compareKeys : List String → List String → Ordering
  | [], [] => .eq
  | [], _ :: _ => .lt
  | _ :: _, [] => .gt
  | a :: as, b :: bs => (compare a b).then (compareKeys as bs)

mutual

/-- The order of two sorted values. -/
def compareSorted : Value → Value → Ordering
  | .bool a, .bool b => compare a b
  | .integer a, .integer b => compare a b
  | .string a, .string b => compare a b
  | .array as, .array bs => compareItems as bs
  | .object as, .object bs =>
      (compareKeys (as.map Prod.fst) (bs.map Prod.fst)).then (compareMembers as bs)
  | a, b =>
      if a.rank = 2 && b.rank = 2 then compareDoubles a.toDouble b.toDouble
      else compare a.rank b.rank

/-- The order of two rows of items. -/
def compareItems : List Value → List Value → Ordering
  | [], [] => .eq
  | [], _ :: _ => .lt
  | _ :: _, [] => .gt
  | a :: as, b :: bs => (compareSorted a b).then (compareItems as bs)

/-- The order of two rows of members by their values. -/
def compareMembers : List (String × Value) → List (String × Value) → Ordering
  | [], [] => .eq
  | [], _ :: _ => .lt
  | _ :: _, [] => .gt
  | (_, a) :: as, (_, b) :: bs => (compareSorted a b).then (compareMembers as bs)

end

/-- The order of two values. -/
def order (a b : Value) : Ordering :=
  compareSorted a.sorted b.sorted

end Value

end Query

end DartModels
