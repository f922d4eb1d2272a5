import DartModels.Text.Words

/-!
# Identifiers

How a JSON key becomes a name of the generated program, and how a name is kept
from clashing with the names around it.

A key can be any text, so an identifier is built from its words alone. That
makes the transform lossy: `user_name`, `userName` and `USER-NAME` are one
field name. It is therefore never trusted to be injective, and uniqueness is
the business of whoever collects the names. `firstFree` is the one rule used
for that everywhere: the name itself, and after it the name with 2, 3, … at
its end, whichever is free first.

A field name must not be a word of the language, a type the class body may
mention, or a member that every generated class declares. All three are turned
away by the same underscore. A class name is checked against the core types
only, and not here: the class table starts out with those names taken.

## Main definitions

* `keywords`, `members`, `coreTypes`: The names that are spoken for.
* `fieldName`: The lower-camel field name for a key.
* `typeName`: The upper-camel class name for a key.
* `fileStem`: The name of the file that holds a class.
* `firstFree`: The first free name among a base and its numbered variants.
* `distinctFieldNames`: One name for each key of a class.

## Theorems

* `firstFree_not_taken`: The name found is free.
-/

namespace DartModels

namespace Identifier

/-- Reserved words, built-in identifiers and contextual keywords of Dart. -/
def keywords : List String :=
  ["abstract", "as", "assert", "async", "await", "break", "case", "catch", "class",
   "const", "continue", "covariant", "default", "deferred", "do", "dynamic", "else",
   "enum", "export", "extends", "extension", "external", "factory", "false", "final",
   "finally", "for", "Function", "get", "if", "implements", "import", "in", "interface",
   "is", "late", "library", "mixin", "new", "null", "operator", "part", "required",
   "rethrow", "return", "set", "static", "super", "switch", "this", "throw", "true",
   "try", "typedef", "var", "void", "while", "with", "yield"]

/-- Members that every generated class declares or inherits. -/
def members : List String :=
  ["toJson", "fromJson", "copyWith", "hashCode", "runtimeType", "toString", "noSuchMethod"]

/-- Type names of the core library, which no generated class may shadow. -/
def coreTypes : List String :=
  ["bool", "int", "double", "num", "dynamic", "void", "Never", "Null", "Object",
   "String", "List", "Map", "Set", "Iterable", "Function", "Type", "Symbol", "Record",
   "Future", "Stream", "DateTime", "Duration", "Uri", "Error", "Exception", "Enum",
   "Pattern", "RegExp", "Comparable", "BigInt", "Iterator", "Runes", "StackTrace"]

/-- Whether a name cannot be used for a field as it stands. -/
def isReserved (name : String) : Bool :=
  keywords.contains name || members.contains name || coreTypes.contains name

/-- The words of a key as one word in lower camel case. -/
def lowerCamel : List (List Char) → List Char
  | [] => []
  | word :: rest => Text.lowercase word ++ (rest.map Text.capitalize).flatten

/-- The words of a key as one word in upper camel case. -/
def upperCamel (ws : List (List Char)) : List Char :=
  (ws.map Text.capitalize).flatten

/-- Put `letter` before a name that begins with a digit: identifiers begin
    with a letter. -/
def guardDigit (letter : Char) (name : List Char) : List Char :=
  if (name.head?.map Char.isDigit).getD false then letter :: name else name

/-- Mark a reserved name with a trailing underscore. No reserved name ends in
    one, so the marked name is free. -/
def guardReserved (name : String) : String :=
  if isReserved name then name ++ "_" else name

/-- The field name for a key. A key without letters and digits has no words
    to offer and is called `value`. -/
def fieldName (key : String) : String :=
  match lowerCamel (Text.words key) with
  | [] => "value"
  | name => guardReserved (String.ofList (guardDigit 'n' name))

/-- The class name for a key, or `fallback` when the key has no words. The
    fallback is taken as it is, apart from a leading digit. -/
def typeName (key fallback : String) : String :=
  let name := upperCamel (Text.words key)
  String.ofList (guardDigit 'N' (if name.isEmpty then fallback.toList else name))

/-- The words of a class name in small letters, joined by underscores: the
    customary name of a source file. -/
def fileStem (name : String) : String :=
  String.intercalate "_" ((Text.words name).map fun w => String.ofList (Text.lowercase w))

/-- The `n`-th variant of a name. -/
def variant (base : String) (n : Nat) : String :=
  base ++ toString n

/-- The first variant from number `n` on that is not taken, if it is among
    the next `tries`. -/
def firstFreeFrom (taken : String → Bool) (base : String) : Nat → Nat → Option String
  | 0, _ => none
  | tries + 1, n =>
      if taken (variant base n) then firstFreeFrom taken base tries (n + 1)
      else some (variant base n)

/-- The first name that is not taken among `base`, `base2`, `base3`, …, with
    `attempts` candidates in all. -/
def firstFree (taken : String → Bool) (base : String) (attempts : Nat) : Option String :=
  if taken base then firstFreeFrom taken base (attempts - 1) 2 else some base

theorem firstFreeFrom_not_taken {taken : String → Bool} {base name : String} {tries n : Nat}
    (h : firstFreeFrom taken base tries n = some name) : taken name = false := by
  induction tries generalizing n with
  | zero => simp [firstFreeFrom] at h
  | succ k ih =>
      simp only [firstFreeFrom] at h
      by_cases ht : taken (variant base n) = true
      · simp only [ht, if_true] at h
        exact ih h
      · simp only [ht, Bool.false_eq_true, if_false, Option.some.injEq] at h
        rw [← h]
        exact Bool.not_eq_true _ ▸ ht

theorem firstFree_not_taken {taken : String → Bool} {base name : String} {attempts : Nat}
    (h : firstFree taken base attempts = some name) : taken name = false := by
  by_cases ht : taken base = true
  · simp only [firstFree, ht, if_true] at h
    exact firstFreeFrom_not_taken h
  · simp only [firstFree, ht, Bool.false_eq_true, if_false, Option.some.injEq] at h
    rw [← h]
    exact Bool.not_eq_true _ ▸ ht

/-- Names for the keys of a class, given the names already handed out. With
    `k` names taken one of any `k + 1` candidates is free, so the search never
    comes back empty-handed. -/
def distinctFrom (taken : List String) : List String → List String
  | [] => []
  | key :: rest =>
      let base := fieldName key
      let name := (firstFree taken.contains base (taken.length + 1)).getD base
      name :: distinctFrom (name :: taken) rest

/-- One field name for each key, all of them different: a key whose plain name
    an earlier key has taken gets the first numbered variant that is free. -/
def distinctFieldNames (keys : List String) : List String :=
  distinctFrom [] keys

end Identifier

end DartModels
