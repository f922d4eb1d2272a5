import DartModels.CommandLine.Command
import DartModels.CommandLine.Failure
import DartModels.Glob.Expansion
import DartModels.Identifier

/-!
# Sources and documents

The documents that a command takes, each with the name of its root class.

All sources are settled before any of them is read, so a pattern that stands
for no file is reported even if an earlier source is no document. They are then
read in order and the first fault ends the reading. Standard input has an end
like any file, and whoever reads it a second time finds nothing.

A class is named by the command, or after the file, or `Root`. When one name
falls to several documents, the second and later ones get their number behind
it. Only names as they were before this are counted, so a name that has a
number of its own may come out twice.

## Main definitions

* `Source`: Where a document comes from.
* `Inputs.sourceList`: The sources of a command.
* `Document`: A document that is ready for conversion.
* `splitClassName?`: The packages of a class name.
* `numberRepeated`: Names with numbers where they repeat.
* `Inputs.documents`: The documents of a command.

## Theorems

* `numberRepeated_length`: No name is lost.
-/

namespace DartModels

/-- Where a document comes from. -/
inductive Source where
  | standardInput
  | file (path : String)
  deriving DecidableEq

/-- Whether a source is a pattern of paths. -/
def Source.isPattern (text : String) : Bool :=
  text.toList.any fun c => c == '*' || c == '?' || c == '[' || c == '\x7b'

/-- The sources that one input stands for. -/
def Source.ofInput {m : Type → Type} [Monad m] (view : Files.View m) (text : String) :
    m (Except Failure (List Source)) := do
  if text == "-" then return .ok [.standardInput]
  else if Source.isPattern text then
    match ← Glob.expand view text with
    | .error e => return .error (.pattern text e)
    | .ok [] => return .error (.noMatch text)
    | .ok paths => return .ok (paths.map .file)
  else return .ok [.file text]

/-- The sources of several inputs. The first fault among them decides. -/
def Source.ofInputs {m : Type → Type} [Monad m] (view : Files.View m) :
    List String → m (Except Failure (List Source))
  | [] => return .ok []
  | text :: rest => do
      match ← Source.ofInput view text with
      | .error e => return .error e
      | .ok sources =>
          match ← Source.ofInputs view rest with
          | .error e => return .error e
          | .ok more => return .ok (sources ++ more)

/-- A source in reports. -/
def Source.origin : Source → String
  | .standardInput => "<stdin>"
  | .file path => path

/-- A document that is ready for conversion. -/
structure Document where
  origin : String
  /-- The directories that its file lies in. -/
  package : List String
  className : String
  value : Json

/-- The packages of a class name, and the class: `none` if a segment is
    blank. -/
def splitClassName? (name : String) : Option (List String × String) :=
  let parts := (name.toList.splitOn '.').map String.ofList
  if parts.any Text.isBlankText then none else some (parts.dropLast, parts.getLast?.getD "")

/-- Names with numbers where they repeat, given the names before them. -/
def numberRepeatedAfter (before : List String) : List String → List String
  | [] => []
  | name :: rest =>
      let earlier := before.count name
      (if earlier = 0 then name else name ++ toString (earlier + 1)) ::
        numberRepeatedAfter (name :: before) rest

/-- Names with numbers where they repeat. -/
def numberRepeated (names : List String) : List String :=
  numberRepeatedAfter [] names

theorem numberRepeatedAfter_length (before names : List String) :
    (numberRepeatedAfter before names).length = names.length := by
  induction names generalizing before with
  | nil => rfl
  | cons name rest ih => simp [numberRepeatedAfter, ih]

theorem numberRepeated_length (names : List String) :
    (numberRepeated names).length = names.length :=
  numberRepeatedAfter_length [] names

/-- Documents with numbers behind the names that repeat. -/
def distinguish (documents : List Document) : List Document :=
  List.zipWith (fun d name => { d with className := name }) documents
    (numberRepeated (documents.map Document.className))

namespace Inputs

/-- The packages and the class of a source. -/
def classOf (inputs : Inputs) (source : Source) : Except Failure (List String × String) :=
  match inputs.className, source with
  | some name, _ =>
      match splitClassName? name with
      | some parts => .ok parts
      | none => .error (.className name)
  | none, .standardInput => .ok ([], "Root")
  | none, .file path =>
      match Path.stem? path with
      | some stem => .ok ([], Identifier.typeName stem "Root")
      | none => .ok ([], "Root")

/-- The part of a document that is taken. -/
def select (inputs : Inputs) (origin : String) (v : Json) : Except Failure Json :=
  match inputs.pointer with
  | none => .ok v
  | some pointer =>
      match Json.select? pointer v with
      | some u => .ok u
      | none => .error (.pointer origin pointer)

/-- The documents that are made of a document. -/
def transform (inputs : Inputs) (origin : String) (v : Json) : Except Failure (List Json) :=
  match inputs.query with
  | none => .ok [v]
  | some query =>
      match Query.run query v with
      | .ok vs => .ok vs
      | .error e => .error (.query origin e)

/-- The documents of a source with this text. -/
def documentsOf (inputs : Inputs) (source : Source) (text : String) :
    Except Failure (List Document) := do
  let origin := source.origin
  if Text.isBlankText text then .error (.emptySource origin)
  else
    match Json.read text with
    | .error e => .error (.document origin e)
    | .ok v => do
        let part ← inputs.select origin v
        let values ← inputs.transform origin part
        let (package, className) ← inputs.classOf source
        return values.map fun value => ⟨origin, package, className, value⟩

/-- The text of a source. `left` is what is left of standard input. -/
def textOf {m : Type → Type} [Monad m] (view : Files.View m) (left : ByteArray)
    (source : Source) : m (Except Failure String) := do
  match source with
  | .standardInput => return (Files.decode left).mapError .standardInput
  | .file path => return (← Files.readText view path).mapError (.source path)

/-- The documents of several sources, in order. -/
def documentsFrom {m : Type → Type} [Monad m] (inputs : Inputs) (view : Files.View m) :
    ByteArray → List Source → m (Except Failure (List Document))
  | _, [] => return .ok []
  | left, source :: rest => do
      match ← textOf view left source with
      | .error e => return .error e
      | .ok text =>
          match inputs.documentsOf source text with
          | .error e => return .error e
          | .ok documents =>
              -- Standard input can be read to its end only once.
              let left := if source = .standardInput then ByteArray.empty else left
              match ← inputs.documentsFrom view left rest with
              | .error e => return .error e
              | .ok more => return .ok (documents ++ more)

/-- The documents of a command. Standard input is read only if it is among the
    sources. -/
def documents {m : Type → Type} [Monad m] (inputs : Inputs) (view : Files.View m)
    (standardInput : m ByteArray) : m (Except Failure (List Document)) := do
  match ← Source.ofInputs view inputs.sources with
  | .error e => return .error e
  | .ok sources =>
      let content ←
        if sources.contains .standardInput then standardInput else pure ByteArray.empty
      return (← inputs.documentsFrom view content sources).map distinguish

end Inputs

end DartModels
