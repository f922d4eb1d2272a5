import DartModels.Query.Operator

/-!
# Parts of a value

The steps by which a query goes from a value to its parts: to the part with a
given key, to a stretch of an array or a string, or to every part in turn.

A key that is missing and a number beyond the end lead to `null`. What is a
fault is to ask a value for the wrong sort of part: an array for a key, an
object for a number, and anything else for either. A lenient step answers such
a question with nothing at all.

Numbers below zero count from the end. In a stretch a bound beyond either end
is moved to that end.

## Main definitions

* `Query.Step`: A step, once its keys and bounds are known.
* `Value.part`, `Value.stretch`, `Value.parts`: What the three kinds of steps
  lead to.
* `Step.take`, `follow`: One step, and a row of them.
* `Value.descendants`: A value and all that is inside it.
-/

namespace DartModels

namespace Query

namespace Value

/-- The place that a number stands for in a row of `size`, where it is not
    before the beginning. -/
def place? (i : Int) (size : Nat) : Option Nat :=
  if 0 ≤ i then some i.toNat else if (size : Int) < -i then none else some (size - i.natAbs)

/-- The part of a value with this key or number. -/
def part (v key : Value) : Outcome :=
  match v, key with
  | .array items, .integer i =>
      .ok (((place? i items.length).bind fun n => items[n]?).getD .null)
  | .object members, .string k => .ok ((Json.find? members k).getD .null)
  | .array _, _ => .error (.noPart v key)
  | .object _, _ => .error (.noPart v key)
  | _, _ => .error (.wrongKind v "iterable")

/-- A bound of a stretch in a row of `size`. -/
def bound (b : Option Value) (size default : Nat) : Except Fault Nat :=
  match b with
  | none => .ok default
  | some (.integer i) => .ok (min ((place? i size).getD 0) size)
  | some v => .error (.wrongKind v "integer")

/-- The stretch of a value between two bounds. -/
def stretch (v : Value) (low high : Option Value) : Outcome :=
  match v with
  | .array items => do
      let a ← bound low items.length 0
      let b ← bound high items.length items.length
      return .array ((items.drop a).take (b - a))
  | .string s => do
      let size := s.length
      let a ← bound low size 0
      let b ← bound high size size
      return .string (String.ofList ((s.toList.drop a).take (b - a)))
  | v => .error (.wrongKind v "rangeable")

/-- Every part of a value in turn. -/
def parts (v : Value) : List Outcome :=
  match v with
  | .array items => items.map .ok
  | .object members => members.map fun m => .ok m.2
  | v => [.error (.wrongKind v "iterable")]

mutual

/-- A value and all that is inside it, each container before its parts. -/
def descendants : Value → List Value
  | .array items => .array items :: itemDescendants items
  | .object members => .object members :: memberDescendants members
  | v => [v]

/-- Items and all that is inside them. -/
def itemDescendants : List Value → List Value
  | [] => []
  | v :: rest => descendants v ++ itemDescendants rest

/-- The values of members and all that is inside them. -/
def memberDescendants : List (String × Value) → List Value
  | [] => []
  | (_, v) :: rest => descendants v ++ memberDescendants rest

end

end Value

/-- A step from a value to its parts. A lenient one passes over faults. -/
inductive Step where
  | part (key : Value) (lenient : Bool)
  | stretch (low high : Option Value) (lenient : Bool)
  | parts (lenient : Bool)

namespace Step

/-- Outcomes without the faults among them, if those are to be passed over. -/
def forgive (lenient : Bool) (outcomes : List Outcome) : List Outcome :=
  if lenient then outcomes.filter fun r => r.isOk else outcomes

/-- What a step leads to. -/
def take (v : Value) : Step → List Outcome
  | .part key lenient => forgive lenient [v.part key]
  | .stretch low high lenient => forgive lenient [v.stretch low high]
  | .parts lenient => forgive lenient v.parts

end Step

/-- Go on from each outcome that is a value. A fault stays where it is. -/
def andThen (outcomes : List Outcome) (next : Value → List Outcome) : List Outcome :=
  outcomes.flatMap fun r =>
    match r with
    | .ok v => next v
    | .error e => [.error e]

/-- What a row of steps leads to. -/
def follow : List Step → Value → List Outcome
  | [], v => [.ok v]
  | s :: rest, v => andThen (s.take v) (follow rest)

end Query

end DartModels
