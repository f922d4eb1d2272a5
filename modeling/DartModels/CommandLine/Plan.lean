import DartModels.CommandLine.Source
import DartModels.Conversion

/-!
# Plans

What a command is going to write, settled before anything is written.

A plan comes out of looking alone: options are read, documents are read and
converted, and only if all of that has worked is there a plan. Whatever fails
before this leaves the files as they were and standard output empty.

Classes go to a directory if one is named by the command, by the options, or
by the packages of a class name, in this order; the file that a command names
comes before the last two. In a directory each document has a file of its own,
below the directories of its packages. Elsewhere all documents are written one
after another.

## Main definitions

* `Output`, `Plan`: Files to write, and what to print.
* `documentPath`: The file of a document in a directory.
* `Command.prepare`: The plan of a command.
-/

namespace DartModels

/-- A file to write. -/
structure Output where
  path : String
  text : String
  /-- How many classes are in it, if that is to be announced. -/
  classes : Option Nat

/-- What a command is going to write. -/
structure Plan where
  outputs : List Output
  standardOutput : String

/-- The plan to do nothing. -/
def Plan.nothing : Plan := ⟨[], ""⟩

/-- Where files go if only a package asks for a directory. -/
def defaultFolder : String := "lib"

/-- The file of a document in a directory. -/
def documentPath (directory : String) (d : Document) : String :=
  Path.append (d.package.foldl Path.append directory) (Identifier.fileStem d.className ++ ".dart")

/-- The options of a command, with the warnings that come with them. -/
def Overrides.options {m : Type → Type} [Monad m] (c : Overrides) (view : Files.View m) :
    m (List Warning × Except Failure Options) := do
  match c.file with
  | none => return ([], .ok (c.apply {}))
  | some path =>
      match ← Files.readText view path with
      | .error e => return ([], .error (.optionFile path e))
      | .ok text =>
          let (unknown, result) := Options.ofText text
          return (unknown.map .unknownOption, (result.map c.apply).mapError .options)

/-- A document with its classes. -/
abbrev Converted := Document × List SourceUnit

/-- The classes of each document. The first document without classes
    decides. -/
def convertAll (o : Options) (documents : List Document) : Except Failure (List Converted) :=
  documents.mapM fun d =>
    match convert o d.className d.value with
    | .ok units => .ok (d, units)
    | .error e => .error (.conversion d.origin e)

/-- The directory that classes go to, if they go to one. -/
def chooseDirectory (destination : Destination) (o : Options) (converted : List Converted) :
    Option String :=
  match destination with
  | .directory path => some path
  | .file _ => none
  | .unspecified =>
      match o.outputFolder with
      | some path => some path
      | none => if converted.any fun c => !c.1.package.isEmpty then some defaultFolder else none

/-- All classes in one text. -/
def joinAll (converted : List Converted) : String :=
  String.intercalate "\n" (converted.map fun c => joinUnits c.2)

/-- The plan for Dart classes. -/
def planDart (destination : Destination) (o : Options) (converted : List Converted) :
    List Warning × Plan :=
  match chooseDirectory destination o converted with
  | some directory =>
      let output (c : Converted) : Output :=
        ⟨documentPath directory c.1, joinUnits c.2, some c.2.length⟩
      ([], ⟨converted.map output, ""⟩)
  | none =>
      match destination with
      | .file path =>
          let classes := converted.foldl (fun n c => n + c.2.length) 0
          let shared := if 1 < converted.length then [.sharedFile converted.length] else []
          (shared, ⟨[⟨path, joinAll converted, some classes⟩], ""⟩)
      | _ => ([], ⟨[], joinAll converted⟩)

/-- A field as it is shown. -/
def describeField (o : Options) (c : Catalog) (f : Field) : Json :=
  .object
    [("name", .string f.name), ("jsonKey", .string f.key),
      ("type", .string (Dart.slotType o c f.slot).render), ("nullable", .bool f.slot.nullable)]

/-- A class as it is shown. -/
def describeClass (o : Options) (c : Catalog) (d : ClassDef) : Json :=
  .object [("name", .string d.name), ("fields", .array (d.fields.map (describeField o c)))]

/-- The classes of a document as they are shown. -/
def describe (o : Options) (d : Document) : Except Failure Json :=
  match Catalog.ofDocument o d.className d.value with
  | .error e => .error (.inference d.origin e)
  | .ok c =>
      .ok (.object
        [("source", .string d.origin), ("root", .string d.className),
          ("classes", .array (c.classes.map (describeClass o c)))])

/-- The plan for showing classes. -/
def planInspection (file : Option String) (views : List Json) : Plan :=
  let text := (Json.array views).pretty
  match file with
  | some path => ⟨[⟨path, text, none⟩], ""⟩
  | none => ⟨[], text ++ "\n"⟩

/-- The options and documents of a command, with the warnings on the way. -/
def gather {m : Type → Type} [Monad m] (inputs : Inputs) (overrides : Overrides)
    (view : Files.View m) (standardInput : m ByteArray) :
    m (List Warning × Except Failure (Options × List Document)) := do
  match ← overrides.options view with
  | (warnings, .error e) => return (warnings, .error e)
  | (warnings, .ok o) =>
      return (warnings, (← inputs.documents view standardInput).map fun ds => (o, ds))

/-- The plan of a command, with the warnings on the way to it. -/
def Command.prepare {m : Type → Type} [Monad m] (c : Command) (view : Files.View m)
    (standardInput : m ByteArray) : m (List Warning × Except Failure Plan) := do
  match c with
  | .idle => return ([], .ok .nothing)
  | .dart inputs overrides destination =>
      match ← gather inputs overrides view standardInput with
      | (warnings, .error e) => return (warnings, .error e)
      | (warnings, .ok (o, documents)) =>
          match convertAll o documents with
          | .error e => return (warnings, .error e)
          | .ok converted =>
              let (more, plan) := planDart destination o converted
              return (warnings ++ more, .ok plan)
  | .inspect inputs overrides file =>
      match ← gather inputs overrides view standardInput with
      | (warnings, .error e) => return (warnings, .error e)
      | (warnings, .ok (o, documents)) =>
          return (warnings, (documents.mapM (describe o)).map (planInspection file))

end DartModels
