import DartModels.Query.Operator

/-!
# Terms of a query

What a query is once its text has been read.

A term is applied to a value and gives a row of outcomes. Where a term goes
from a value into its parts, the way is a `Route`: a row of steps whose keys
and bounds are terms themselves. They are asked about the value that the whole
term is applied to and not about the place the route has reached, and that is
why a route is a part of one term and not a chain of terms.

Operators are read as a flat row first, a term and then pairs of an operator
and a term. `Term.assemble` turns such a row into one term by going through
the levels of binding from the loosest to the tightest and cutting the row at
the operators of each level.

## Main definitions

* `Query.Term`, `Query.Route`: Terms and routes.
* `Query.Link`: What can stand between two terms.
* `Link.level`: How tightly it binds.
* `Term.assemble`: A row of linked terms as one term.
-/

namespace DartModels

namespace Query

mutual

/-- A term of a query. -/
inductive Term where
  /-- The value itself. -/
  | identity
  /-- The value and all that is inside it. -/
  | everything
  | number (digits : String)
  | string (value : String)
  | variable (name : String)
  | call (name : String) (arguments : List Term)
  | emptyArray
  /-- All outcomes of a term as one array. -/
  | collect (items : Term)
  | emptyObject
  /-- An object with one member. -/
  | member (key value : Term)
  | negate (operand : Term)
  /-- A term whose faults are passed over. -/
  | attempt (body : Term)
  /-- The parts of what a term gives. -/
  | path (base : Term) (route : Route)
  /-- The second term applied to what the first gives. -/
  | pipe (first second : Term)
  /-- A term with a name for each outcome of another. -/
  | bind (source : Term) (name : String) (body : Term)
  /-- The outcomes of two terms, one after the other. -/
  | both (first second : Term)
  /-- What of the first term counts as true, or else the second. -/
  | fallback (first second : Term)
  | either (first second : Term)
  | each (first second : Term)
  | compute (operator : Operator) (left right : Term)
  | choose (condition consequent alternative : Term)
  /-- A running value, updated for each outcome of a source. -/
  | reduce (source : Term) (name : String) (start update : Term)

/-- A row of steps into a value. A lenient step passes over faults. -/
inductive Route where
  | done
  | part (key : Term) (lenient : Bool) (rest : Route)
  | from (low : Term) (lenient : Bool) (rest : Route)
  | upTo (high : Term) (lenient : Bool) (rest : Route)
  | between (low high : Term) (lenient : Bool) (rest : Route)
  | parts (lenient : Bool) (rest : Route)

end

/-- What can stand between two terms. -/
inductive Link where
  | pipe
  /-- A pipe that gives each outcome on its left a name. -/
  | bind (name : String)
  | comma
  | fallback
  | either
  | each
  | operator (operator : Operator)
  deriving DecidableEq

/-- How tightly a link binds: from loose to tight. -/
inductive Level where
  | pipe
  | comma
  | fallback
  | either
  | each
  | equality
  | order
  | sum
  | product
  | remainder
  deriving DecidableEq

namespace Level

/-- All levels from loose to tight. -/
def all : List Level :=
  [.pipe, .comma, .fallback, .either, .each, .equality, .order, .sum, .product, .remainder]

/-- The level of an operator. -/
def ofOperator : Operator → Level
  | .equal => .equality
  | .unequal => .equality
  | .less => .order
  | .lessOrEqual => .order
  | .greater => .order
  | .greaterOrEqual => .order
  | .add => .sum
  | .subtract => .sum
  | .multiply => .product
  | .divide => .product
  | .remainder => .remainder

end Level

namespace Link

/-- The level of a link. -/
def level : Link → Level
  | .pipe => .pipe
  | .bind _ => .pipe
  | .comma => .comma
  | .fallback => .fallback
  | .either => .either
  | .each => .each
  | .operator o => .ofOperator o

/-- Two terms with a link between them. -/
def join (link : Link) (left right : Term) : Term :=
  match link with
  | .pipe => .pipe left right
  | .bind name => .bind left name right
  | .comma => .both left right
  | .fallback => .fallback left right
  | .either => .either left right
  | .each => .each left right
  | .operator o => .compute o left right

/-- Cut a row of linked terms at the links of one level. The first component
    is what stands before the first cut. -/
def cut (l : Level) :
    List (Link × Term) → List (Link × Term) × List (Link × Term × List (Link × Term))
  | [] => ([], [])
  | (link, t) :: rest =>
      let (own, groups) := cut l rest
      if link.level = l then ([], (link, t, own) :: groups) else ((link, t) :: own, groups)

/-- Join terms so that the last link is innermost. -/
def joinRight (first : Term) : List (Link × Term) → Term
  | [] => first
  | (link, t) :: rest => link.join first (joinRight t rest)

/-- Join terms so that the first link is innermost. -/
def joinLeft (first : Term) : List (Link × Term) → Term
  | [] => first
  | (link, t) :: rest => joinLeft (link.join first t) rest

end Link

/-- A row of linked terms as one term, given the levels that can still occur
    in it. Pipes group to the right and all other links to the left. -/
def Term.assemble : List Level → Term → List (Link × Term) → Term
  | [], first, row => Link.joinLeft first row
  | l :: tighter, first, row =>
      let (own, groups) := Link.cut l row
      let head := Term.assemble tighter first own
      let tail := groups.map fun g => (g.1, Term.assemble tighter g.2.1 g.2.2)
      if l = .pipe then Link.joinRight head tail else Link.joinLeft head tail

end Query

end DartModels
