import DartModels.CommandLine.Run

/-!
# The program

The command line of the program, on the files of the machine.

Nothing is decided here. Words go to `Command.parse`, a command goes to
`Command.run` together with the two interfaces to files, and what the report
says goes to the standard streams.

## Main definitions

* `main`: The program.
-/

namespace DartModels

namespace Machine

/-- A system error as a fault. -/
def fault (e : IO.Error) : Files.Fault :=
  match e with
  | .noFileOrDirectory .. => .notFound
  | .alreadyExists .. => .exists
  | .inappropriateType _ code details =>
      if code == 20 then .notDirectory
      else if code == 21 then .isDirectory
      else .other details
  | e => .other (toString e)

/-- Do something with a path, unless the path is refused at once. -/
def attempt {α : Type} (path : String) (action : IO α) : IO (Except Files.Fault α) := do
  match Files.checkPath path with
  | .error e => return .error e
  | .ok () =>
      try
        return .ok (← action)
      catch e =>
        return .error (fault e)

/-- Whether an action on a path succeeds and says yes. -/
def holds (path : String) (action : IO Bool) : IO Bool := do
  match ← attempt path action with
  | .ok b => return b
  | .error _ => return false

/-- Looking at the files of the machine. -/
def view : Files.View IO where
  read path := attempt path (IO.FS.readBinFile path)
  isPresent path := holds path do return ← ((← IO.currentDir) / path).pathExists
  isDirectory path := holds path do return ← ((← IO.currentDir) / path).isDir
  names path := do
    let found ← attempt path do
      return (← ((← IO.currentDir) / path).readDir).toList.map fun entry => entry.fileName
    match found with
    | .ok names => return names
    | .error _ => return []

/-- Changing the files of the machine. -/
def sink : Files.Sink IO where
  makeDirectory path := attempt path (IO.FS.createDir path)
  isDirectory path := view.isDirectory path
  write path content := attempt path (IO.FS.writeFile path content)

/-- Everything that is left on a stream. -/
partial def drain (stream : IO.FS.Stream) (taken : ByteArray) : IO ByteArray := do
  let more ← stream.read 65536
  if more.isEmpty then return taken else drain stream (taken ++ more)

/-- A warning as a line. -/
def warningLine (w : Warning) : String :=
  s!"WARN {w.message} {w.subject.1}={w.subject.2}"

/-- Say what a report says, and give the status to end with. -/
def say (r : Report) : IO UInt32 := do
  for w in r.warnings do
    IO.eprintln (warningLine w)
  IO.eprint r.standardError
  IO.print r.standardOutput
  if let some e := r.failure then
    IO.eprintln s!"error: {e.message}"
  return UInt32.ofNat r.status

/-- What a line that is not a command is answered with. -/
def usageLine : String := "usage: (dart | inspect) --input INPUT ..."

/-- Answer a line that is not a command, and give the status to end with. Asked
    for, the answer is output; else it is a complaint. -/
def explain (usage : Usage) : IO UInt32 := do
  if usage.status == 0 then IO.println usageLine else IO.eprintln usageLine
  return UInt32.ofNat usage.status

end Machine

end DartModels

/-- The program. -/
def main (words : List String) : IO UInt32 := do
  match DartModels.Command.parse words with
  | .error usage => DartModels.Machine.explain usage
  | .ok command =>
      let standardInput := do DartModels.Machine.drain (← IO.getStdin) ByteArray.empty
      DartModels.Machine.say
        (← command.run DartModels.Machine.view DartModels.Machine.sink standardInput)
