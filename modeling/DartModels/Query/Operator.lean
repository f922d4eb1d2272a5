import DartModels.Query.Order

/-!
# Operators

The operators that compute with two values, and what can go wrong when a query
runs.

Arithmetic on two integers is exact while 64 bits suffice and goes on with
doubles where they do not; division leaves the integers at once. Beyond
numbers, addition joins strings, arrays and objects, subtraction removes items
of an array, multiplication repeats a string or merges objects to the bottom,
and division cuts a string. `null` is neutral for addition. Any other pair of
operands is a fault.

## Main definitions

* `Query.Operator`: The operators.
* `Query.Fault`: What can go wrong when a query runs.
* `Operator.compute`: The value of an operator on two values.
* `Value.negate`: A number with the other sign.
-/

namespace DartModels

namespace Query

/-- The operators that compute with two values. -/
inductive Operator where
  | equal
  | unequal
  | less
  | lessOrEqual
  | greater
  | greaterOrEqual
  | add
  | subtract
  | multiply
  | divide
  | remainder
  deriving DecidableEq

/-- The symbol of an operator. -/
def Operator.symbol : Operator → String
  | .equal => "=="
  | .unequal => "!="
  | .less => "<"
  | .lessOrEqual => "<="
  | .greater => ">"
  | .greaterOrEqual => ">="
  | .add => "+"
  | .subtract => "-"
  | .multiply => "*"
  | .divide => "/"
  | .remainder => "%"

/-- A name that a query refers to. -/
inductive Reference where
  | function (name : String) (arity : Nat)
  | variable (name : String)
  deriving DecidableEq

/-- What can go wrong when a query runs. -/
inductive Fault where
  /-- The query raised this value itself. -/
  | raised (value : Value)
  /-- A value has no part of this name or number. -/
  | noPart (whole part : Value)
  /-- A value is not of the kind that is needed. -/
  | wrongKind (value : Value) (needed : String)
  /-- An operator is not defined on these values. -/
  | operands (operator : Operator) (left right : Value)
  /-- A name has no meaning where it stands. -/
  | unbound (reference : Reference)

/-- A fault in words. -/
def Fault.message : Fault → String
  | .raised (.string s) => s
  | .raised v => v.text
  | .noPart whole part => s!"cannot index {whole.text} with {part.text}"
  | .wrongKind v needed => s!"cannot use {v.text} as {needed}"
  | .operands o left right => s!"cannot calculate {left.text} {o.symbol} {right.text}"
  | .unbound (.function name _) => s!"undefined {name}"
  | .unbound (.variable name) => s!"undefined ${name}"

/-- A value, or what went wrong on the way to it. -/
abbrev Outcome := Except Fault Value

namespace Value

/-- The sum of two members lists: the right one overwrites. -/
def joinMembers (left right : List (String × Value)) : List (String × Value) :=
  right.foldl (fun acc m => Json.insertMember acc m.1 m.2) left

mutual

/-- What the member of an object becomes when `new` is merged into it. -/
def mergeValue (old : Option Value) (new : Value) : Value :=
  match new with
  | .object right =>
      match old with
      | some (.object left) => .object (mergeMembers left right)
      | _ => .object right
  | v => v

/-- Two objects merged: where both have an object under a key these are merged
    in turn, and elsewhere the right one overwrites. -/
def mergeMembers (left : List (String × Value)) (right : List (String × Value)) :
    List (String × Value) :=
  match right with
  | [] => left
  | (k, v) :: rest =>
      mergeMembers (Json.insertMember left k (mergeValue (Json.find? left k) v)) rest

end

/-- A text cut at each place where `separator` stands. The empty separator
    stands between any two characters. -/
def cut (s separator : String) : List String :=
  if s.isEmpty then []
  else if separator.isEmpty then s.toList.map fun c => String.ofList [c]
  else s.splitOn separator

/-- A number with the other sign. -/
def negate : Value → Outcome
  | .integer n => .ok (ofInteger (-n) (-(Float.ofInt n)))
  | v =>
      match v.number? with
      | some f => .ok (.double (-f))
      | none => .error (.wrongKind v "number")

end Value

namespace Operator

/-- An operator on two numbers that are not both integers of 64 bits: `none`
    if there is no number among the operands. -/
def onDoubles (o : Operator) (f : Float → Float → Float) (left right : Value) : Outcome :=
  if left.rank = 2 && right.rank = 2 then .ok (.double (f left.toDouble right.toDouble))
  else .error (.operands o left right)

/-- Addition. -/
def sum (left right : Value) : Outcome :=
  match left, right with
  | .null, v => .ok v
  | v, .null => .ok v
  | .integer a, .integer b => .ok (Value.ofInteger (a + b) (Float.ofInt a + Float.ofInt b))
  | .string a, .string b => .ok (.string (a ++ b))
  | .array a, .array b => .ok (.array (a ++ b))
  | .object a, .object b => .ok (.object (Value.joinMembers a b))
  | a, b => onDoubles .add (· + ·) a b

/-- Subtraction. -/
def difference (left right : Value) : Outcome :=
  match left, right with
  | .integer a, .integer b => .ok (Value.ofInteger (a - b) (Float.ofInt a - Float.ofInt b))
  -- Every occurrence of every item of the right array goes.
  | .array a, .array b => .ok (.array (a.filter fun v => !b.any fun u => v.order u == .eq))
  | a, b => onDoubles .subtract (· - ·) a b

/-- A text written `n` times over: none of it is `null`. -/
def repeated (s : String) (n : Int) : Value :=
  if n ≤ 0 then .null else .string (String.join (List.replicate n.toNat s))

/-- Multiplication. -/
def product (left right : Value) : Outcome :=
  match left, right with
  | .integer a, .integer b => .ok (Value.ofInteger (a * b) (Float.ofInt a * Float.ofInt b))
  | .string s, .integer n => .ok (repeated s n)
  | .integer n, .string s => .ok (repeated s n)
  | .object a, .object b => .ok (.object (Value.mergeMembers a b))
  | a, b => onDoubles .multiply (· * ·) a b

/-- Division. -/
def quotient (left right : Value) : Outcome :=
  match left, right with
  | .string a, .string b => .ok (.array ((Value.cut a b).map Value.string))
  | a, b => onDoubles .divide (· / ·) a b

/-- The remainder of a division that rounds towards zero. -/
def modulus (left right : Value) : Outcome :=
  match left, right with
  | .integer a, .integer b =>
      if b = 0 then .error (.operands .remainder left right) else .ok (.integer (a.tmod b))
  | _, _ => .error (.operands .remainder left right)

/-- The value of an operator on two values. -/
def compute (o : Operator) (left right : Value) : Outcome :=
  match o with
  | .equal => .ok (.bool (left.order right == .eq))
  | .unequal => .ok (.bool (left.order right != .eq))
  | .less => .ok (.bool (left.order right == .lt))
  | .lessOrEqual => .ok (.bool (left.order right != .gt))
  | .greater => .ok (.bool (left.order right == .gt))
  | .greaterOrEqual => .ok (.bool (left.order right != .lt))
  | .add => sum left right
  | .subtract => difference left right
  | .multiply => product left right
  | .divide => quotient left right
  | .remainder => modulus left right

end Operator

end Query

end DartModels
