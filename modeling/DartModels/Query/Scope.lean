import DartModels.Query.Term
import DartModels.Query.Function

/-!
# Names of a query

Whether every name in a term means something where it stands.

A call means something if there is a function of that name with that number of
arguments. A variable means something inside the term that gives it a name. The
names without a meaning are listed in the order of the text, the name of a call
before those of its arguments, and a name that stands twice is listed twice.

## Main definitions

* `Term.unbound`: The names without a meaning.
-/

namespace DartModels

namespace Query

mutual

/-- The names in a term that have no meaning, where the variables of `scope`
    have one. -/
def Term.unbound (scope : List String) : Term → List Reference
  | .identity => []
  | .everything => []
  | .number _ => []
  | .string _ => []
  | .variable name => if scope.contains name then [] else [.variable name]
  | .call name arguments =>
      (if isKnown name arguments.length then [] else [.function name arguments.length]) ++
        unboundIn scope arguments
  | .emptyArray => []
  | .collect t => t.unbound scope
  | .emptyObject => []
  | .member key value => key.unbound scope ++ value.unbound scope
  | .negate t => t.unbound scope
  | .attempt t => t.unbound scope
  | .path base route => base.unbound scope ++ route.unbound scope
  | .pipe a b => a.unbound scope ++ b.unbound scope
  | .bind source name body => source.unbound scope ++ body.unbound (name :: scope)
  | .both a b => a.unbound scope ++ b.unbound scope
  | .fallback a b => a.unbound scope ++ b.unbound scope
  | .either a b => a.unbound scope ++ b.unbound scope
  | .each a b => a.unbound scope ++ b.unbound scope
  | .compute _ a b => a.unbound scope ++ b.unbound scope
  | .choose c a b => c.unbound scope ++ a.unbound scope ++ b.unbound scope
  | .reduce source name start update =>
      source.unbound scope ++ start.unbound scope ++ update.unbound (name :: scope)

/-- The names without a meaning in several terms. -/
def unboundIn (scope : List String) : List Term → List Reference
  | [] => []
  | t :: rest => t.unbound scope ++ unboundIn scope rest

/-- The names without a meaning in a route. -/
def Route.unbound (scope : List String) : Route → List Reference
  | .done => []
  | .part key _ rest => key.unbound scope ++ rest.unbound scope
  | .from low _ rest => low.unbound scope ++ rest.unbound scope
  | .upTo high _ rest => high.unbound scope ++ rest.unbound scope
  | .between low high _ rest => low.unbound scope ++ high.unbound scope ++ rest.unbound scope
  | .parts _ rest => rest.unbound scope

end

end Query

end DartModels
