import DartModels.Dart.Literal

/-!
# Types and expressions

The fragment of Dart that the bodies of generated classes are made of, as
trees, with their spelling.

Generated code reads values out of a decoded JSON map and writes them back, and
it takes only a handful of forms to do it. They are kept as trees rather than
as text, because what matters about them is what they mean: which type an
expression has, and what it evaluates to. The spelling is one function of the
tree.

A member can be reached with a point or with the null-aware `?.`. A chain that
was entered null-aware skips all the members behind it when the receiver is
null, so under null safety `xs?.map(f).toList()` needs one question mark. Older
programs do not promise that, and mark every step of the chain.

A cast binds less tightly than a member, so a cast that is a receiver stands in
parentheses. No other form here needs any.

## Main definitions

* `Ty`: Types, with their spelling `Ty.render`.
* `Expr`: Expressions, with their spelling `Expr.render`.
-/

namespace DartModels

namespace Dart

/-- A type of the generated program. -/
inductive Ty where
  /-- A type that is written as it is. -/
  | named (name : String)
  | list (item : Ty)
  /-- The type that also holds null. -/
  | nullable (base : Ty)
  deriving DecidableEq

namespace Ty

/-- The type of anything, which needs no cast. -/
def dynamic : Ty := .named "dynamic"

/-- The type of a decoded JSON object. -/
def jsonMap : Ty := .named "Map<String, dynamic>"

/-- A type in words. -/
def render : Ty → String
  | .named name => name
  | .list item => "List<" ++ item.render ++ ">"
  | .nullable base => base.render ++ "?"

/-- Whether a type holds null already, going by its spelling: a name that the
    user chose may end in a question mark of its own. -/
def holdsNull (t : Ty) : Bool :=
  let text := t.render
  text == "dynamic" || text == "Null" || text.toList.getLast? == some '?'

end Ty

/-- How the members of a receiver are reached. -/
inductive Access where
  /-- The receiver is not null. -/
  | plain
  /-- The whole chain is skipped if the receiver is null. -/
  | nullAware
  /-- Every step is skipped by itself if its receiver is null. -/
  | nullAwareThroughout
  deriving DecidableEq

/-- The mark in front of the first member of a chain. -/
def Access.first : Access → String
  | .plain => "."
  | _ => "?."

/-- The mark in front of the later members of a chain. -/
def Access.later : Access → String
  | .nullAwareThroughout => "?."
  | _ => "."

/-- An expression of the generated program. -/
inductive Expr where
  | var (name : String)
  /-- The value of a key in the decoded map `json`. -/
  | entry (key : String)
  | cast (e : Expr) (type : Ty)
  | toDouble (e : Expr) (access : Access)
  | toJson (e : Expr) (access : Access)
  /-- The named constructor of a class that reads a decoded map. -/
  | fromJson (name : String) (e : Expr)
  /-- The body, or null where the subject is null. -/
  | unlessNull (subject body : Expr)
  /-- The list of the bodies, one for each element of the list `e`. -/
  | mapList (e : Expr) (access : Access) (x : String) (body : Expr)
  deriving DecidableEq

namespace Expr

/-- Whether an expression needs parentheses to be a receiver. -/
def isCast : Expr → Bool
  | .cast _ _ => true
  | _ => false

/-- Put a spelling in parentheses. -/
def parens (on : Bool) (text : String) : String :=
  if on then "(" ++ text ++ ")" else text

/-- An expression in words. -/
def render : Expr → String
  | .var name => name
  | .entry key => "json[" ++ literal key ++ "]"
  | .cast e type => e.render ++ " as " ++ type.render
  | .toDouble e access => parens e.isCast e.render ++ access.first ++ "toDouble()"
  | .toJson e access => parens e.isCast e.render ++ access.first ++ "toJson()"
  | .fromJson name e => name ++ ".fromJson(" ++ e.render ++ ")"
  | .unlessNull subject body => subject.render ++ " == null ? null : " ++ body.render
  | .mapList e access x body =>
      parens e.isCast e.render ++ access.first ++ "map((" ++ x ++ ") => " ++ body.render ++
        ")" ++ access.later ++ "toList()"

end Expr

end Dart

end DartModels
