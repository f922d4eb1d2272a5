import DartModels.CommandLine.Arguments
import DartModels.CommandLine.Plan
import DartModels.Files.Tree

/-!
# Running a command

A command carried out from its first word to the last file.

A run has two phases. The first one looks and ends in a plan or a failure, and
the second one carries the plan out. Files are written in the order of the
plan, each is announced once it is written, and the first that cannot be
written ends the run. What has been written by then stays.

Both phases are open in the kind of effect. `runOn` fixes it for a directory
tree, and then a run is a function from a tree to a tree and a report.

## Main definitions

* `Report`: What a run says.
* `Plan.perform`: A plan carried out.
* `Command.run`: A command carried out.
* `Command.runOn`: A command carried out on a directory tree.

## Theorems

* `runOn_of_failure`: A run that fails before it has a plan changes nothing
  and prints nothing.
-/

namespace DartModels

/-- What a run says. -/
structure Report where
  standardOutput : String := ""
  /-- What is announced to whoever watches. -/
  standardError : String := ""
  warnings : List Warning := []
  failure : Option Failure := none

/-- The status that the program ends with. -/
def Report.status (r : Report) : Nat :=
  if r.failure.isSome then 1 else 0

/-- The line that announces a file. -/
def announce (path : String) (classes : Nat) : String :=
  let plural := if classes = 1 then "" else "es"
  s!"✓ generated {path} ({classes} class{plural})\n"

/-- Write a file with the directories it needs. -/
def Output.write {m : Type → Type} [Monad m] (sink : Files.Sink m) (o : Output) :
    m (Except Failure Unit) := do
  let parent := (Path.parent? o.path).getD ""
  match ← Files.makeDirectories sink parent with
  | .error e => return .error (.directory parent e)
  | .ok () => return (← sink.write o.path o.text).mapError (.writing o.path)

/-- Write files in order. What is announced grows, and the first fault ends the
    writing. -/
def writeAll {m : Type → Type} [Monad m] (sink : Files.Sink m) (announced : String) :
    List Output → m (String × Option Failure)
  | [] => return (announced, none)
  | o :: rest => do
      match ← o.write sink with
      | .error e => return (announced, some e)
      | .ok () =>
          let line := (o.classes.map (announce o.path)).getD ""
          writeAll sink (announced ++ line) rest

/-- A plan carried out. -/
def Plan.perform {m : Type → Type} [Monad m] (sink : Files.Sink m) (warnings : List Warning)
    (plan : Plan) : m Report := do
  let (announced, failure) ← writeAll sink "" plan.outputs
  return {
    standardOutput := plan.standardOutput
    standardError := announced
    warnings := warnings
    failure := failure }

/-- A command carried out. -/
def Command.run {m : Type → Type} [Monad m] (c : Command) (view : Files.View m)
    (sink : Files.Sink m) (standardInput : m ByteArray) : m Report := do
  match ← c.prepare view standardInput with
  | (warnings, .error e) => return { warnings := warnings, failure := some e }
  | (warnings, .ok plan) => plan.perform sink warnings

/-- A command carried out on a directory tree. -/
def Command.runOn (c : Command) (t : Tree) (home : List String) (standardInput : ByteArray) :
    Report × Tree :=
  match (c.prepare (t.view home) (pure standardInput) : Id _) with
  | (warnings, .error e) => ({ warnings := warnings, failure := some e }, t)
  | (warnings, .ok plan) => (plan.perform (Tree.sink home) warnings).run t

theorem runOn_of_failure (c : Command) (t : Tree) (home : List String) (standardInput : ByteArray)
    (warnings : List Warning) (e : Failure)
    (h : (c.prepare (t.view home) (pure standardInput) : Id _) = (warnings, .error e)) :
    c.runOn t home standardInput = ({ warnings := warnings, failure := some e }, t) := by
  simp only [Command.runOn, h]

end DartModels
