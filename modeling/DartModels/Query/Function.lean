import DartModels.Query.Access

/-!
# Named functions

The functions that a query can call by name.

Some work on the value alone; those are a `Function`, and `Function.apply`
says what each of them gives. The others take terms as arguments. Which they
are is said by `Combinator`, and what they do with their arguments is said
where terms are given a meaning, in terms of the operations collected here.

A name with one number of arguments has nothing to do with the same name with
another, so there is a `first` that takes the first part of a value and a
`first` that takes the first outcome of a term.

## Main definitions

* `Query.Function`, `Function.apply`: The functions without arguments.
* `Query.Combinator`: The functions with arguments.
* `isKnown`: Whether a name with a number of arguments is a function.
* `collect`, `lastOf`, `progression`: Operations on outcomes.
-/

namespace DartModels

namespace Query

namespace Value

/-- The size of a value: how far a number is from zero, how many characters a
    string has, and how many parts a container has. -/
def size (v : Value) : Outcome :=
  match v with
  | .null => .ok (.integer 0)
  | .bool _ => .error (.wrongKind v "sized")
  | .integer n => .ok (ofInteger n.natAbs (Float.ofInt n).abs)
  | .string s => .ok (.integer s.length)
  | .array items => .ok (.integer items.length)
  | .object members => .ok (.integer members.length)
  | v => .ok (.double v.toDouble.abs)

/-- The keys of a value in its own order, each with its value: numbers for an
    array. -/
def keyed (v : Value) : Except Fault (List (Value × Value)) :=
  match v with
  | .array items => .ok (items.mapIdx fun i u => (.integer i, u))
  | .object members => .ok (members.map fun m => (.string m.1, m.2))
  | v => .error (.wrongKind v "keyed")

/-- Whether `a` may stand before `b` in a sorted row. -/
def before (a b : Value) : Bool :=
  b.order a != .lt

/-- The sum of values from the left, beginning with `null`. -/
def total (vs : List Value) : Outcome :=
  vs.foldlM (fun acc v => Operator.sum acc v) .null

end Value

/-- All outcomes of a row, or the first fault among them. -/
def collect (outcomes : List Outcome) : Except Fault (List Value) :=
  outcomes.mapM id

/-- The last outcome of a row, or the first fault among them. -/
def lastOf (outcomes : List Outcome) : List Outcome :=
  match collect outcomes with
  | .ok vs => (vs.getLast?.map .ok).toList
  | .error e => [.error e]

/-- The functions without arguments. -/
inductive Function where
  | null
  | true
  | false
  | not
  | nan
  | empty
  | error
  | length
  | keys
  | first
  | last
  | add
  | type
  | reverse
  | toEntries
  | sort
  deriving DecidableEq

namespace Function

/-- The function of a name. -/
def ofName? : String → Option Function
  | "null" => some .null
  | "true" => some .true
  | "false" => some .false
  | "not" => some .not
  | "nan" => some .nan
  | "empty" => some .empty
  | "error" => some .error
  | "length" => some .length
  | "keys" => some .keys
  | "first" => some .first
  | "last" => some .last
  | "add" => some .add
  | "type" => some .type
  | "reverse" => some .reverse
  | "to_entries" => some .toEntries
  | "sort" => some .sort
  | _ => none

/-- The items of an array from the last to the first. Other values are turned
    around only if they have no parts to turn around. -/
def reversed (v : Value) : Outcome :=
  match v with
  | .array items => .ok (.array items.reverse)
  | v => do
      let n ← v.size
      if n.order (.integer 0) == .gt then .error (.wrongKind v "array") else return .array []

/-- The parts of a value as objects with a key and a value. -/
def entries (v : Value) : Outcome := do
  let kvs ← v.keyed
  return .array (kvs.map fun kv => .object [("key", kv.1), ("value", kv.2)])

/-- The items of an array in order. Equal ones stay as they are. -/
def sortedItems (v : Value) : Outcome :=
  match v with
  | .array items => .ok (.array (items.mergeSort Value.before))
  | v => .error (.wrongKind v "array")

/-- The keys of a value in order. -/
def sortedKeys (v : Value) : Outcome := do
  let kvs ← v.keyed
  return .array ((kvs.map Prod.fst).mergeSort Value.before)

/-- What a function gives for a value. -/
def apply (f : Function) (v : Value) : List Outcome :=
  match f with
  | .null => [.ok .null]
  | .true => [.ok (.bool Bool.true)]
  | .false => [.ok (.bool Bool.false)]
  | .not => [.ok (.bool (!v.truth))]
  | .nan => [.ok (.double (0.0 / 0.0))]
  | .empty => []
  | .error => [.error (.raised v)]
  | .length => [v.size]
  | .keys => [sortedKeys v]
  | .first => [v.part (.integer 0)]
  | .last => [v.part (.integer (-1))]
  | .add => [(collect v.parts).bind Value.total]
  | .type => [.ok (.string v.kindName)]
  | .reverse => [reversed v]
  | .toEntries => [entries v]
  | .sort => [sortedItems v]

end Function

/-- The functions with arguments. -/
inductive Combinator where
  | select
  | map
  | first
  | last
  | add
  | error
  | range
  deriving DecidableEq

/-- The function of a name and a number of arguments, which is at least one. -/
def Combinator.ofName? (name : String) (arity : Nat) : Option Combinator :=
  match name, arity with
  | "select", 1 => some .select
  | "map", 1 => some .map
  | "first", 1 => some .first
  | "last", 1 => some .last
  | "add", 1 => some .add
  | "error", 1 => some .error
  | "range", 1 => some .range
  | "range", 2 => some .range
  | "range", 3 => some .range
  | _, _ => none

/-- Whether a name with a number of arguments is a function. -/
def isKnown (name : String) (arity : Nat) : Bool :=
  if arity = 0 then (Function.ofName? name).isSome else (Combinator.ofName? name arity).isSome

/-! ### Progressions -/

/-- Whether a progression is still on the near side of its end. `up` is the
    order of its step and zero. -/
def within (up : Ordering) (v last : Value) : Bool :=
  match up with
  | .gt => v.order last == .lt
  | .lt => v.order last == .gt
  -- A step of nothing never gets there.
  | .eq => v.order last != .eq

/-- At most `fuel` members of a progression. A fault in going on is the last of
    them. -/
def progressionUpTo : Nat → Ordering → Value → Value → Value → List Outcome
  | 0, _, _, _, _ => []
  | fuel + 1, up, v, last, step =>
      if within up v last then
        .ok v ::
          match Operator.sum v step with
          | .ok next => progressionUpTo fuel up next last step
          | .error e => [.error e]
      else []

/-- How many members a progression has at most, the first two of which may come
    before it moves by equal steps. -/
def progressionBound (first last step : Value) : Nat :=
  match first, last, step with
  | .integer a, .integer b, .integer s => ((b - a) / s).natAbs + 2
  | a, b, s => ((b.toDouble - a.toDouble) / s.toDouble).abs.ceil.toUInt64.toNat + 2

/-- The values from `first` by `step` as long as they have not reached
    `last`. -/
def progression (first last step : Value) : List Outcome :=
  progressionUpTo (progressionBound first last step) (step.order (.integer 0)) first last step

end Query

end DartModels
