import DartModels.Query.Scope

/-!
# The meaning of a query

A term applied to a value gives a row of outcomes, each of them a value or a
fault. A fault does not end the row: what comes after it is still computed,
and whoever uses the row decides what a fault in it means.

Where two terms are combined, the outcomes of the left one are the outer loop.
`1 + (2, 3)` and `(1, 2) + 3` are both rows of two, and in `(a, b) + (c, d)`
the right operand changes faster. A `fallback` keeps of its left term what
counts as true, faults included, and turns to its right term only if nothing
was kept.

Meaning is given by recursion on the term. That is possible because a query
cannot define functions of its own, and because `everything` and `reduce`
recur over values and rows that are there already.

## Main definitions

* `Query.Variables`: The values of the variables in scope.
* `Term.eval`: The meaning of a term.
* `Route.steps`: The rows of steps that a route stands for.
-/

namespace DartModels

namespace Query

/-- The values of the variables in scope, the innermost first. -/
abbrev Variables := List (String × Value)

/-- The value of an operator on each pair of outcomes. -/
def combine (f : Value → Value → List Outcome) (left right : List Outcome) : List Outcome :=
  left.flatMap fun l =>
    right.flatMap fun r =>
      match l, r with
      | .ok a, .ok b => f a b
      | .error e, _ => [.error e]
      | _, .error e => [.error e]

/-- The object with one member. -/
def memberOf (key value : Value) : Outcome :=
  match key with
  | .string k => .ok (.object [(k, value)])
  | k => .error (.wrongKind k "string")

/-- Carry a running value through the outcomes of a source. Where the update
    has several outcomes the rest of the way is gone for each. -/
def reduceOver (update : Value → Value → List Outcome) : List Outcome → Value → List Outcome
  | [], acc => [.ok acc]
  | .error e :: _, _ => [.error e]
  | .ok v :: rest, acc => andThen (update v acc) (reduceOver update rest)

/-- An outcome as the key of a step. -/
def withKey (keys : List Outcome) (rests : List (Except Fault (List Step)))
    (step : Value → Step) : List (Except Fault (List Step)) :=
  keys.flatMap fun k =>
    match k with
    | .ok v => rests.map fun r => r.map (step v :: ·)
    | .error e => [.error e]

/-- What a function with one argument gives, for the meaning of its
    argument. -/
def applyOne (c : Combinator) (f : Value → List Outcome) (v : Value) : List Outcome :=
  match c with
  | .select => andThen (f v) fun u => if u.truth then [.ok v] else []
  | .map => [(collect (andThen v.parts f)).map Value.array]
  | .first => (f v).take 1
  | .last => lastOf (f v)
  | .add => [(collect (f v)).bind Value.total]
  | .error => andThen (f v) fun u => [.error (.raised u)]
  | .range => andThen (f v) fun b => progression (.integer 0) b (.integer 1)

/-- What a function gives, for the meanings of its arguments. -/
def applyTo (name : String) (arguments : List (Value → List Outcome)) (v : Value) :
    List Outcome :=
  let unknown := [.error (.unbound (.function name arguments.length))]
  match arguments, Combinator.ofName? name arguments.length with
  | [], _ =>
      match Function.ofName? name with
      | some f => f.apply v
      | none => unknown
  | [f], some c => applyOne c f v
  | [f, g], some .range =>
      combine (fun a b => progression a b (.integer 1)) (f v) (g v)
  | [f, g, h], some .range =>
      andThen (f v) fun a => andThen (g v) fun b => andThen (h v) fun s => progression a b s
  | _, _ => unknown

mutual

/-- The outcomes of a term for a value. -/
def Term.eval : Term → Variables → Value → List Outcome
  | .identity, _, v => [.ok v]
  | .everything, _, v => v.descendants.map .ok
  | .number digits, _, _ => [.ok (.ofDigits digits)]
  | .string s, _, _ => [.ok (.string s)]
  | .variable name, env, _ =>
      match Json.find? env name with
      | some u => [.ok u]
      | none => [.error (.unbound (.variable name))]
  | .call name arguments, env, v => applyTo name (meanings arguments env) v
  | .emptyArray, _, _ => [.ok (.array [])]
  | .collect t, env, v => [(collect (t.eval env v)).map Value.array]
  | .emptyObject, _, _ => [.ok (.object [])]
  | .member key value, env, v =>
      combine (fun k u => [memberOf k u]) (key.eval env v) (value.eval env v)
  | .negate t, env, v => andThen (t.eval env v) fun u => [u.negate]
  | .attempt t, env, v => Step.forgive true (t.eval env v)
  | .path base route, env, v =>
      -- Keys and bounds are asked about the value, not about what the base makes of it.
      let ways := route.steps env v
      andThen (base.eval env v) fun u =>
        ways.flatMap fun way =>
          match way with
          | .ok steps => follow steps u
          | .error e => [.error e]
  | .pipe a b, env, v => andThen (a.eval env v) fun u => b.eval env u
  | .bind source name body, env, v =>
      andThen (source.eval env v) fun u => body.eval ((name, u) :: env) v
  | .both a b, env, v => a.eval env v ++ b.eval env v
  | .fallback a b, env, v =>
      let kept := (a.eval env v).filter fun r =>
        match r with
        | .ok u => u.truth
        | .error _ => true
      if kept.isEmpty then b.eval env v else kept
  | .either a b, env, v =>
      andThen (a.eval env v) fun u =>
        if u.truth then [.ok (.bool true)]
        else andThen (b.eval env v) fun w => [.ok (.bool w.truth)]
  | .each a b, env, v =>
      andThen (a.eval env v) fun u =>
        if u.truth then andThen (b.eval env v) fun w => [.ok (.bool w.truth)]
        else [.ok (.bool false)]
  | .compute o a b, env, v => combine (fun x y => [o.compute x y]) (a.eval env v) (b.eval env v)
  | .choose c a b, env, v =>
      andThen (c.eval env v) fun u => if u.truth then a.eval env v else b.eval env v
  | .reduce source name start update, env, v =>
      -- The source is the same for every outcome of the start.
      let xs := source.eval env v
      andThen (start.eval env v) (reduceOver (fun x acc => update.eval ((name, x) :: env) acc) xs)

/-- The meanings of the arguments of a call. -/
def meanings : List Term → Variables → List (Value → List Outcome)
  | [], _ => []
  | t :: rest, env => (fun v => t.eval env v) :: meanings rest env

/-- The rows of steps that a route stands for, one for each choice among the
    outcomes of its keys and bounds. All of these are asked about `v`. -/
def Route.steps : Route → Variables → Value → List (Except Fault (List Step))
  | .done, _, _ => [.ok []]
  | .part key lenient rest, env, v =>
      withKey (key.eval env v) (rest.steps env v) fun k => .part k lenient
  | .from low lenient rest, env, v =>
      withKey (low.eval env v) (rest.steps env v) fun a => .stretch (some a) none lenient
  | .upTo high lenient rest, env, v =>
      withKey (high.eval env v) (rest.steps env v) fun b => .stretch none (some b) lenient
  | .between low high lenient rest, env, v =>
      (low.eval env v).flatMap fun a =>
        match a with
        | .ok a =>
            withKey (high.eval env v) (rest.steps env v) fun b =>
              .stretch (some a) (some b) lenient
        | .error e => [.error e]
  | .parts lenient rest, env, v => (rest.steps env v).map fun r => r.map (.parts lenient :: ·)

end

end Query

end DartModels
