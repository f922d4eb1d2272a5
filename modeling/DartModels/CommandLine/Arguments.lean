import DartModels.CommandLine.Command

/-!
# Arguments

The words of a command line read as a command.

A word that begins with two dashes names an option in full, and a word with one
dash is a row of options by their letters. An option that takes a value finds
it behind an equals sign, in the rest of a row of letters, or in the next word.
A dash by itself is a plain word.

An option whose value is expected in the next word stays open. It is settled,
that is to say its values are counted and looked at, when the next option
begins or the words are at an end. Until then a fault in it is not noticed, so
an unknown option behind it is reported first. Only the input option takes
several words, and only it can be given several times.

What is wrong with a whole command is looked at last: first options that
exclude one another, then options that are missing.

## Main definitions

* `Usage`: Why there is no command.
* `Arguments.Setting`, `Arguments.Switch`: Options with and without values.
* `Arguments.Progress`: What has been read so far.
* `Command.parse`: The command of a row of words.
-/

namespace DartModels

/-- Why the words of a command line are no command. -/
inductive Usage where
  /-- The words ask for help. -/
  | help
  /-- The words ask for the version. -/
  | version
  /-- There are no words. -/
  | nothingAsked
  | unknownArgument
  | unknownCommand
  | missingArgument
  /-- An option has no value, or an empty one where that makes no sense. -/
  | missingValue
  /-- The value of an option cannot be read. -/
  | badValue
  /-- An option that takes no value has one. -/
  | unexpectedValue
  /-- Options exclude one another, or one is given twice. -/
  | conflict
  deriving DecidableEq

/-- The status that the program ends with. To ask for help is no mistake. -/
def Usage.status : Usage → Nat
  | .help => 0
  | .version => 0
  | _ => 2

namespace Arguments

/-- Options that take a value. -/
inductive Setting where
  | input
  | className
  | pointer
  | query
  | config
  | indent
  | nullType
  | maxDepth
  | out
  | outDir
  deriving DecidableEq

/-- Options that take no value. -/
inductive Switch where
  | noNullSafety
  | noMergeArrays
  | copyWith
  | noOp
  deriving DecidableEq

/-- What the name of an option can stand for. -/
inductive Flag where
  | setting (s : Setting)
  | switch (s : Switch)
  | help
  deriving DecidableEq

/-- The two commands. -/
inductive Verb where
  | dart
  | inspect
  deriving DecidableEq

/-- The command of a word. -/
def Verb.ofWord? : String → Option Verb
  | "dart" => some .dart
  | "inspect" => some .inspect
  | _ => none

/-- The option of a full name. -/
def Verb.flag? (verb : Verb) (name : String) : Option Flag :=
  match name with
  | "input" => some (.setting .input)
  | "class-name" => some (.setting .className)
  | "json-pointer" => some (.setting .pointer)
  | "jq-expr" => some (.setting .query)
  | "config" => some (.setting .config)
  | "indent" => some (.setting .indent)
  | "null-type" => some (.setting .nullType)
  | "max-depth" => some (.setting .maxDepth)
  | "out" => some (.setting .out)
  | "out-dir" => if verb = .dart then some (.setting .outDir) else none
  | "no-null-safety" => some (.switch .noNullSafety)
  | "no-merge-arrays" => some (.switch .noMergeArrays)
  | "copy-with" => some (.switch .copyWith)
  | "no-op" => if verb = .dart then some (.switch .noOp) else none
  | "help" => some .help
  | _ => none

/-- The option of a letter. -/
def letter? : Char → Option Flag
  | 'i' => some (.setting .input)
  | 'c' => some (.setting .className)
  | 'o' => some (.setting .out)
  | 'h' => some .help
  | _ => none

/-- The greatest number that an option can have. -/
def maxSize : Nat := Nat.pow 2 64 - 1

/-- The number that a text spells in plain digits, with a plus sign at most. -/
def size? (text : String) : Option Nat :=
  let digits :=
    match text.toList with
    | '+' :: rest => rest
    | cs => cs
  if digits.isEmpty || !digits.all Char.isDigit then none
  else
    let n := digits.foldl (fun n c => n * 10 + (c.toNat - '0'.toNat)) 0
    if n ≤ maxSize then some n else none

/-- What is wrong with the value of an option. -/
def Setting.fault? (s : Setting) (value : String) : Option Usage :=
  match s with
  | .indent => if (size? value).isNone then some .badValue else none
  | .maxDepth => if (size? value).isNone then some .badValue else none
  | .config => if value.isEmpty then some .missingValue else none
  | .out => if value.isEmpty then some .missingValue else none
  | .outDir => if value.isEmpty then some .missingValue else none
  | _ => none

/-- Whether an option takes several words. -/
def Setting.repeats (s : Setting) : Bool :=
  s = .input

/-- What has been read so far. -/
structure Progress where
  /-- The option that is open, with its values. -/
  pending : Option (Setting × List String) := none
  /-- Whether the next plain word is a value of it. -/
  awaits : Bool := false
  /-- The options that are settled, with their values, in order. -/
  settings : List (Setting × String) := []
  switches : List Switch := []

namespace Progress

/-- The values of an option. -/
def valuesOf (p : Progress) (s : Setting) : List String :=
  (p.settings.filter fun v => v.1 = s).map Prod.snd

/-- Settle an option with these values. -/
def add (p : Progress) (s : Setting) (values : List String) : Except Usage Progress :=
  if values.isEmpty then .error .missingValue
  else if !s.repeats && !(p.valuesOf s).isEmpty then .error .conflict
  else
    match values.findSome? s.fault? with
    | some fault => .error fault
    | none => .ok { p with settings := p.settings ++ values.map fun v => (s, v) }

/-- Settle the option that is open. -/
def settle (p : Progress) : Except Usage Progress :=
  match p.pending with
  | none => .ok p
  | some (s, values) => { p with pending := none, awaits := false }.add s values

/-- Begin an option whose values are to come. -/
def begin (p : Progress) (s : Setting) : Except Usage Progress := do
  let p ← p.settle
  return { p with pending := some (s, []), awaits := true }

/-- Take an option with its value attached. -/
def attach (p : Progress) (s : Setting) (value : String) : Except Usage Progress := do
  (← p.settle).add s [value]

/-- Take an option without a value. -/
def turn (p : Progress) (s : Switch) : Except Usage Progress := do
  let p ← p.settle
  if p.switches.contains s then .error .conflict else return { p with switches := s :: p.switches }

/-- Take a plain word. -/
def word (p : Progress) (w : String) : Except Usage Progress :=
  match p.pending with
  | some (s, values) =>
      if p.awaits then .ok { p with pending := some (s, values ++ [w]), awaits := s.repeats }
      else .error .unknownArgument
  | none => .error .unknownArgument

/-- Take an option by its full name, with a value if one is attached. -/
def named (p : Progress) (flag : Option Flag) (value : Option String) : Except Usage Progress :=
  match flag, value with
  | none, _ => .error .unknownArgument
  | some (.setting s), none => p.begin s
  | some (.setting s), some v => p.attach s v
  | some (.switch s), none => p.turn s
  | some .help, none => do let _ ← p.settle; .error .help
  | some _, some _ => .error .unexpectedValue

/-- Take a row of letters. The first that takes a value has the rest of the
    row for it. -/
def letters (p : Progress) : List Char → Except Usage Progress
  | [] => .ok p
  | c :: rest =>
      match letter? c with
      | none => .error .unknownArgument
      | some .help => do let _ ← p.settle; .error .help
      | some (.switch s) => do (← p.turn s).letters rest
      | some (.setting s) =>
          match rest with
          | [] => p.begin s
          -- One equals sign in front of the value is not part of it.
          | '=' :: value => p.attach s (String.ofList value)
          | value => p.attach s (String.ofList value)

end Progress

/-- A name and the value behind an equals sign, if there is one. -/
def splitValue (s : List Char) : String × Option String :=
  let name := String.ofList (s.takeWhile (· != '='))
  match s.dropWhile (· != '=') with
  | [] => (name, none)
  | _ :: value => (name, some (String.ofList value))

/-- Read the words behind a command. Two dashes by themselves end the options,
    and no command takes anything behind them. -/
def readWords (verb : Verb) (p : Progress) : List String → Except Usage Progress
  | [] => p.settle
  | w :: rest =>
      match w.toList with
      | ['-', '-'] => if rest.isEmpty then p.settle else .error .unknownArgument
      | '-' :: '-' :: name => do
          let (name, value) := splitValue name
          readWords verb (← p.named (verb.flag? name) value) rest
      | '-' :: c :: more => do readWords verb (← p.letters (c :: more)) rest
      | _ => do readWords verb (← p.word w) rest

/-- The number of an option, which has been looked at before. -/
def Progress.sizeOf (p : Progress) (s : Setting) : Option Nat :=
  (p.valuesOf s).head?.bind size?

/-- The command that a complete row of options stands for. -/
def Progress.command (p : Progress) (verb : Verb) : Except Usage Command :=
  let value (s : Setting) : Option String := (p.valuesOf s).head?
  let inputs : Inputs := ⟨p.valuesOf .input, value .className, value .pointer, value .query⟩
  let overrides : Overrides :=
    ⟨value .config, p.sizeOf .indent, p.switches.contains .noNullSafety,
      p.switches.contains .noMergeArrays, p.switches.contains .copyWith, value .nullType,
      p.sizeOf .maxDepth⟩
  -- A conflict is reported even where something is missing as well.
  if (value .out).isSome && (value .outDir).isSome then .error .conflict
  else if inputs.sources.isEmpty then .error .missingArgument
  else
    match verb with
    | .inspect => .ok (.inspect inputs overrides (value .out))
    | .dart =>
        if p.switches.contains .noOp then .ok .idle
        else
          match value .out, value .outDir with
          | some path, _ => .ok (.dart inputs overrides (.file path))
          | none, some path => .ok (.dart inputs overrides (.directory path))
          | none, none => .ok (.dart inputs overrides .unspecified)

/-- What a request for help on a row of commands comes to. -/
def helpOn : List String → Usage
  | [] => .help
  | [w] => if (Verb.ofWord? w).isSome || w == "help" then .help else .unknownCommand
  | _ => .unknownCommand

/-- What an option before any command comes to, by its full name. -/
def globalName (s : List Char) : Usage :=
  match splitValue s with
  | ("help", none) => .help
  | ("version", none) => .version
  | ("help", some _) => .unexpectedValue
  | ("version", some _) => .unexpectedValue
  | _ => .unknownArgument

/-- What an option before any command comes to, by its letter. -/
def globalLetter : Char → Usage
  | 'h' => .help
  | 'V' => .version
  | _ => .unknownArgument

/-- What words come to that stand where no options are read any more. -/
def trailing : List String → Usage
  | [] => .nothingAsked
  | w :: _ =>
      if (Verb.ofWord? w).isSome || w == "help" then .unknownArgument else .unknownCommand

end Arguments

/-- The command of a row of words. -/
def Command.parse (words : List String) : Except Usage Command :=
  match words with
  | [] => .error .nothingAsked
  | w :: rest =>
      match w.toList with
      | ['-', '-'] => .error (Arguments.trailing rest)
      | '-' :: '-' :: name => .error (Arguments.globalName name)
      | '-' :: c :: _ => .error (Arguments.globalLetter c)
      | _ =>
          match Arguments.Verb.ofWord? w with
          | some verb => do (← Arguments.readWords verb {} rest).command verb
          | none => .error (if w == "help" then Arguments.helpOn rest else .unknownCommand)

end DartModels
