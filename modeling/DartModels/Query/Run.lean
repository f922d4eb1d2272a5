import DartModels.Json.Reader
import DartModels.Query.Eval
import DartModels.Query.Grammar

/-!
# Running a query

A query applied to a document, giving documents.

Three things are checked before anything runs: that the text is a query, that
every name in it means something, and, at each outcome, that it is a document
again. The last is not idle. A value may be nested deeper than a document may
be, and a number in writing may be out of range. So each outcome is written out
and read back, and the reader decides.

Outcomes are taken in order, and the first that cannot be used decides the
whole run.

## Main definitions

* `Query.Failure`: Why there are no documents.
* `Query.run`: The documents that a query gives for a document.
-/

namespace DartModels

namespace Query

/-- Why a query gives no documents. -/
inductive Failure where
  /-- The text is not a query. -/
  | malformed (source : String)
  /-- Names in the query have no meaning. -/
  | unbound (references : List Reference) (source : String)
  /-- Something went wrong when the query ran. -/
  | fault (fault : Fault)
  /-- An outcome is not a document. -/
  | notDocument (text : String) (reason : Json.SyntaxError)

/-- A reference with its sort. -/
def Reference.describe : Reference → String
  | .function name arity => s!"`{name}` (Filter({arity}))"
  | .variable name => s!"`${name}` (Var)"

/-- A failure in words. -/
def Failure.message : Failure → String
  | .malformed source => s!"jq filter failed to parse:\n  syntax error in `{source}`"
  | .unbound references source =>
      "jq filter failed to compile:" ++
        String.join (references.map fun r => s!"\n  undefined {r.describe} in `{source}`")
  | .fault e => e.message
  | .notDocument text _ => s!"jq produced a value that is not JSON: {text}"

/-- The document that an outcome is. -/
def document (outcome : Outcome) : Except Failure Json :=
  match outcome with
  | .error e => .error (.fault e)
  | .ok v =>
      match Json.read v.text with
      | .ok d => .ok d
      | .error reason => .error (.notDocument v.text reason)

/-- The documents that a row of outcomes is. -/
def documents (outcomes : List Outcome) : Except Failure (List Json) :=
  outcomes.mapM document

/-- The documents that a query gives for a document. -/
def run (source : String) (d : Json) : Except Failure (List Json) :=
  match Term.parse? source with
  | none => .error (.malformed source)
  | some t =>
      match t.unbound [] with
      | [] => documents (t.eval [] (.ofJson d))
      | references => .error (.unbound references source)

end Query

end DartModels
