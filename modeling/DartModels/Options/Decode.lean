import DartModels.Options.Basic
import DartModels.Yaml.Document

/-!
# Reading options

The options that a YAML text asks for.

The options may stand at the top of the text or in a section of a project
manifest. A text with that section is read for the section alone, whatever
else it holds. A text without it that looks like a manifest asks for nothing,
since none of its keys is meant as an option. Any other mapping is read as
options itself.

A key that no option reads is passed over with a warning, so that newer files
still serve an older program. A key that an option reads has to have a value
of its kind; the first one that has not is reported with its path. The two
spellings of the indentation count as one option and exclude each other.

## Main definitions

* `OptionsError`: Why a text asks for nothing sensible.
* `Options.ofEntries`: The options that a mapping asks for.
* `Options.ofValue`: The options that a document asks for.
* `Options.ofText`: The options that a text asks for, with the warnings.
-/

namespace DartModels

/-- What is wrong with the options of a text. -/
inductive OptionsError.Reason where
  /-- A value is not of the kind that is expected. -/
  | wrongKind (found : Yaml.Value) (expected : String)
  /-- A number is below zero. -/
  | negative (n : Int)
  /-- An option is given twice. -/
  | repeated (field : String)
  /-- The text has no value. -/
  | unreadable (e : Yaml.ReadError)

/-- What is wrong with the options of a text, and where. -/
structure OptionsError where
  path : String
  reason : OptionsError.Reason

namespace OptionsError

/-- Doubles in messages have their point in place, whatever their size. -/
def doubleLayout : Decimal.Layout := ⟨-400, 400, false, 1⟩

/-- A value as it is named in a message: small ones are shown. -/
def phrase : Yaml.Value → String
  | .null => "unit value"
  | .bool b => s!"boolean `{b}`"
  | .integer n => s!"integer `{n}`"
  | .double f =>
      let text := (doubleLayout.write? f).getD
        (if f.isNaN then "NaN" else if f < 0.0 then "-inf" else "inf")
      s!"floating point `{text}`"
  | .string s => "string " ++ Text.debug s
  | .sequence _ => "sequence"
  | .mapping _ => "map"
  | .tagged _ _ => "enum"

/-- A reason in words. -/
def Reason.message : Reason → String
  | .wrongKind found expected => s!"invalid type: {phrase found}, expected {expected}"
  | .negative n => s!"invalid value: integer `{n}`, expected usize"
  | .repeated field => s!"duplicate field `{field}`"
  | .unreadable e => e.message

/-- An error in words. -/
def message (e : OptionsError) : String :=
  s!"invalid config at {e.path}: {e.reason.message}"

/-- The path of an error that was found in a section. -/
def inSection (name : String) (e : OptionsError) : OptionsError :=
  { e with path := if e.path = "." then name else s!"{name}.{e.path}" }

end OptionsError

namespace Options

/-- The options, as keys name them. -/
inductive Key where
  | indent
  | nullSafety
  | mergeArrays
  | copyWith
  | nullType
  | maxDepth
  | outputFolder
  deriving DecidableEq

/-- The option that a key names. The indentation has two names. -/
def Key.ofText? (key : String) : Option Key :=
  match key with
  | "indent" => some .indent
  | "tabSize" => some .indent
  | "nullSafety" => some .nullSafety
  | "mergeArrayApproach" => some .mergeArrays
  | "copyWithMethod" => some .copyWith
  | "nullValueDataType" => some .nullType
  | "maxDepth" => some .maxDepth
  | "outputFolder" => some .outputFolder
  | _ => none

/-- The first name of an option. -/
def Key.name : Key → String
  | .indent => "indent"
  | .nullSafety => "nullSafety"
  | .mergeArrays => "mergeArrayApproach"
  | .copyWith => "copyWithMethod"
  | .nullType => "nullValueDataType"
  | .maxDepth => "maxDepth"
  | .outputFolder => "outputFolder"

/-- A value that has to be a number. -/
def number (v : Yaml.Value) : Except OptionsError.Reason Nat :=
  match v.untag with
  | .integer n => if n < 0 then .error (.negative n) else .ok n.toNat
  | u => .error (.wrongKind u "usize")

/-- A value that has to be a truth value. -/
def truth (v : Yaml.Value) : Except OptionsError.Reason Bool :=
  match v.untag with
  | .bool b => .ok b
  | u => .error (.wrongKind u "a boolean")

/-- A value that has to be a text. -/
def text (v : Yaml.Value) : Except OptionsError.Reason String :=
  match v.untag with
  | .string s => .ok s
  | u => .error (.wrongKind u "a string")

/-- Set an option to a value. -/
def set (o : Options) (key : Key) (v : Yaml.Value) : Except OptionsError.Reason Options :=
  match key with
  | .indent => do .ok { o with indent := ← number v }
  | .nullSafety => do .ok { o with nullSafety := ← truth v }
  | .mergeArrays => do .ok { o with mergeArrays := ← truth v }
  | .copyWith => do .ok { o with copyWith := ← truth v }
  | .nullType => do .ok { o with nullType := ← text v }
  | .maxDepth => do .ok { o with maxDepth := ← number v }
  | .outputFolder =>
      match v with
      | .null => .ok { o with outputFolder := none }
      | v => do .ok { o with outputFolder := some (← text v) }

/-- The options that entries ask for, on top of those that earlier entries
    have set. -/
def setAll (o : Options) (given : List Key) :
    List (Yaml.Value × Yaml.Value) → Except OptionsError Options
  | [] => .ok o
  | (k, v) :: rest =>
      match k.text? with
      | none => .error ⟨"?", .wrongKind k.untag "field identifier"⟩
      | some name =>
          match Key.ofText? name with
          | none => setAll o given rest
          | some key =>
              if given.contains key then .error ⟨".", .repeated key.name⟩
              else
                match o.set key v with
                | .ok o => setAll o (key :: given) rest
                | .error reason => .error ⟨name, reason⟩

/-- The options that a mapping asks for. -/
def ofEntries (entries : List (Yaml.Value × Yaml.Value)) : Except OptionsError Options :=
  setAll {} [] entries

/-- The options that a value in the place of a mapping asks for. -/
def ofMapping (v : Yaml.Value) : Except OptionsError Options :=
  match v.untag with
  | .mapping entries => ofEntries entries
  | u => .error ⟨".", .wrongKind u "struct Config"⟩

/-- The keys of a mapping that no option reads. -/
def unknownKeys (entries : List (Yaml.Value × Yaml.Value)) : List String :=
  (entries.filterMap fun e => e.1.text?).filter fun k => (Key.ofText? k).isNone

/-- The section of a manifest that holds the options. -/
def sectionName : String := "jsonToDart"

/-- The keys by which a manifest is known. -/
def manifestKeys : List String := ["name", "dependencies", "environment", "flutter"]

/-- The value of a key of a mapping. -/
def valueAt? (entries : List (Yaml.Value × Yaml.Value)) (key : String) : Option Yaml.Value :=
  (entries.find? fun e => e.1.same (.string key)).map Prod.snd

/-- The options that a section asks for, with the keys passed over. -/
def ofSection (v : Yaml.Value) : List String × Except OptionsError Options :=
  match v.untag with
  | .null => ([], .ok {})
  | _ =>
      let warnings := match v with
        | .mapping entries => (unknownKeys entries).map fun k => s!"{sectionName}.{k}"
        | _ => []
      (warnings, (ofMapping v).mapError (OptionsError.inSection sectionName))

/-- The options that a document asks for, with the keys passed over. -/
def ofValue (v : Yaml.Value) : List String × Except OptionsError Options :=
  match v with
  | .null => ([], .ok {})
  | .mapping entries =>
      match valueAt? entries sectionName with
      | some v => ofSection v
      | none =>
          if manifestKeys.any fun k => (valueAt? entries k).isSome then ([], .ok {})
          else (unknownKeys entries, ofEntries entries)
  | v => ([], ofMapping v)

/-- The options that a text asks for, with the keys passed over. -/
def ofText (source : String) : List String × Except OptionsError Options :=
  if Text.isBlankText source then ([], .ok {})
  else
    match Yaml.read source with
    | .ok v => ofValue v
    | .error e => ([], .error ⟨".", .unreadable e⟩)

end Options

end DartModels
