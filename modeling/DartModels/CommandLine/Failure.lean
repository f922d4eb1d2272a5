import DartModels.Files.Access
import DartModels.Glob.Pattern
import DartModels.Json.Reader
import DartModels.Json.Pointer
import DartModels.Options.Decode
import DartModels.Query.Run
import DartModels.Shape.Inference

/-!
# Failures and warnings of a run

What a run can fail of, and what it only remarks on.

A failure says what was being done and with what, and carries the fault of the
part that refused. In words the fault comes last, behind a colon.

## Main definitions

* `Failure`: Why a run fails.
* `Failure.message`: A failure in words.
* `Warning`: A remark that does not stop a run.
-/

namespace DartModels

/-- Why a run fails. -/
inductive Failure where
  /-- A file of options cannot be read. -/
  | optionFile (path : String) (fault : Files.Fault)
  /-- Options cannot be understood. -/
  | options (error : OptionsError)
  /-- A pattern of paths cannot be understood. -/
  | pattern (text : String) (error : Glob.SyntaxError)
  /-- A pattern of paths stands for no file. -/
  | noMatch (pattern : String)
  /-- A source file cannot be read. -/
  | source (path : String) (fault : Files.Fault)
  /-- Standard input cannot be read. -/
  | standardInput (fault : Files.Fault)
  /-- A source has nothing in it. -/
  | emptySource (origin : String)
  /-- A source is not a document. -/
  | document (origin : String) (error : Json.SyntaxError)
  /-- A pointer leads nowhere. -/
  | pointer (origin pointer : String)
  /-- A query gives no documents. -/
  | query (origin : String) (failure : Query.Failure)
  /-- A class name has an empty segment. -/
  | className (name : String)
  /-- A document has no classes. -/
  | conversion (origin : String) (error : InferenceError)
  /-- A document has no classes to be shown. -/
  | inference (origin : String) (error : InferenceError)
  /-- A directory cannot be made. -/
  | directory (path : String) (fault : Files.Fault)
  /-- A file cannot be written. -/
  | writing (path : String) (fault : Files.Fault)

/-- A failure of a query with the reason behind it. -/
def Query.Failure.fullMessage (f : Query.Failure) : String :=
  match f with
  | .notDocument _ reason => s!"{f.message}: {reason.message}"
  | f => f.message

/-- A failure in words. -/
def Failure.message : Failure → String
  | .optionFile path fault => s!"failed to read config file {path}: {fault.message}"
  | .options error => error.message
  | .pattern text error => s!"bad glob pattern: {text}: {error.message}"
  | .noMatch text => s!"glob pattern matched no files: {text}"
  | .source path fault => s!"failed to read source file {path}: {fault.message}"
  | .standardInput fault => s!"failed to read stdin: {fault.message}"
  | .emptySource origin => s!"{origin} is empty; expected a JSON document"
  | .document origin error => s!"failed to parse JSON source ({origin}): {error.message}"
  | .pointer origin steps => s!"in {origin}: {Json.Pointer.missing steps}"
  | .query origin error => s!"failed to apply jq expression to {origin}: {error.fullMessage}"
  | .className name => s!"invalid class name `{name}`: empty segment"
  | .conversion origin error => s!"conversion of {origin} failed: {error.message}"
  | .inference origin error => s!"inference of {origin} failed: {error.message}"
  | .directory path fault => s!"failed to create {path}: {fault.message}"
  | .writing path fault => s!"failed to write {path}: {fault.message}"

/-- A remark that does not stop a run. -/
inductive Warning where
  /-- An option of this name is not known. -/
  | unknownOption (path : String)
  /-- Several documents go into one file. -/
  | sharedFile (documents : Nat)
  deriving DecidableEq

/-- A warning in words. -/
def Warning.message : Warning → String
  | .unknownOption _ => "ignoring unknown config key"
  | .sharedFile _ => "several documents written to one file; class names may repeat"

/-- What a warning is about: a name and a text. -/
def Warning.subject : Warning → String × String
  | .unknownOption path => ("path", path)
  | .sharedFile documents => ("documents", toString documents)

end DartModels
