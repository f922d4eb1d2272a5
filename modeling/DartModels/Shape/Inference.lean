import DartModels.Json.Value
import DartModels.Options.Basic
import DartModels.Shape.Join
import DartModels.Shape.Path

/-!
# Inference

The shape of a document, found in one walk over it.

The walk visits every value once and answers with its slot. An object becomes
a class when its members are done, so the classes inside it are in the table
before it is. The elements of an array are all visited before any of them are
joined; that is where the objects of one array become one class. With merging
switched off only the first element is visited.

Odd documents are not errors: a null, an empty array or values that do not fit
together all have a shape. Three things are. The root has to be an object,
because a class has to come of it. A value that lies too deep is reported with
its path. And a class may fail to find a name, which takes ten thousand
others of its kind.

The table is handed on also when the walk fails. An error ends the walk that
met it, not the session, and the classes completed before the error are there
for the next document.

## Main definitions

* `InferenceError`: What can go wrong, in words.
* `Inference.observe`: The slot of a value.
* `Inference.observeRoot`: The class of a whole document.

## Theorems

* `Inference.observe_tooDeep`: A value beyond the limit is reported where it
  stands.
-/

namespace DartModels

/-- Why a document has no classes. -/
inductive InferenceError where
  /-- The root is not an object. -/
  | notAnObject (path : List Step) (found : Json.Kind)
  /-- A value lies deeper than the limit. -/
  | tooDeep (path : List Step) (limit : Nat)
  /-- No name is free for a class. -/
  | namesExhausted (base : String) (attempts : Nat)
  deriving DecidableEq

/-- An error in words. -/
def InferenceError.message : InferenceError → String
  | .notAnObject path found =>
      s!"invalid input at {Path.render path}: expected a JSON object, found {found.phrase}"
  | .tooDeep path limit => s!"nesting deeper than {limit} levels at {Path.render path}"
  | .namesExhausted base attempts =>
      s!"could not find a free class name for `{base}` after {attempts} attempts"

namespace Inference

/-- What a walk yields: a result or an error, and the table in either case. -/
abbrev Walk (α : Type) := Except InferenceError α × ClassTable

/-- The name of a class whose key offers none. -/
def fallbackName : String := "Item"

/-- The shape of a number. What does not fit a signed 64-bit integer is read
    as a double when the program runs, and so it is typed as one. -/
def numberShape (n : Json.Number) : Primitive :=
  if n.isSigned64 then .int else .double

/-- The slot of an object with these fields, as a class named after `hint`. -/
def registerObject (t : ClassTable) (hint : String) (fields : List Field) : Walk Slot :=
  match t.registerOrReuse (Identifier.typeName hint fallbackName) fields with
  | .ok (id, t) => (.ok (.required (.ref id)), t)
  | .error e => (.error (.namesExhausted e.base e.attempts), t)

/-- The slot of an array with these elements. Of an array without elements
    nothing is known, and its element shape stays open. -/
def joinElements (t : ClassTable) (slots : List Slot) : Walk Slot :=
  match t.joinAll slots with
  | (some item, t) => (.ok (.required (.list item.shape item.nullable)), t)
  | (none, t) => (.ok (.required (.list .null false)), t)

mutual

/-- The slot of the value at `path`, whose last step comes first. The root of a
    document lies at depth 0 and each step adds one. `hint` names any class
    that is found here. -/
def observe (o : Options) (t : ClassTable) (hint : String) (depth : Nat) (path : List Step)
    (v : Json) : Walk Slot :=
  if o.maxDepth < depth then (.error (.tooDeep path.reverse o.maxDepth), t)
  else
    match v with
    | .null => (.ok ⟨.null, true⟩, t)
    | .bool _ => (.ok (.required (.primitive .bool)), t)
    | .number n => (.ok (.required (.primitive (numberShape n))), t)
    | .string _ => (.ok (.required (.primitive .string)), t)
    | .array items =>
        match observeItems o t hint (depth + 1) path 0 items with
        | (.ok slots, t) => joinElements t slots
        | (.error e, t) => (.error e, t)
    | .object members =>
        match observeMembers o t (depth + 1) path members with
        | (.ok fields, t) => registerObject t hint (Field.withNames fields)
        | (.error e, t) => (.error e, t)

/-- The slots of the elements of an array from number `i` on. -/
def observeItems (o : Options) (t : ClassTable) (hint : String) (depth : Nat)
    (path : List Step) (i : Nat) : List Json → Walk (List Slot)
  | [] => (.ok [], t)
  | v :: rest =>
      -- Without merging, the first element speaks for all.
      if i ≠ 0 && !o.mergeArrays then (.ok [], t)
      else
        match observe o t hint depth (.index i :: path) v with
        | (.error e, t) => (.error e, t)
        | (.ok slot, t) =>
            match observeItems o t hint depth path (i + 1) rest with
            | (.ok slots, t) => (.ok (slot :: slots), t)
            | (.error e, t) => (.error e, t)

/-- The fields for the members of an object, still without names. -/
def observeMembers (o : Options) (t : ClassTable) (depth : Nat) (path : List Step) :
    List (String × Json) → Walk (List Field)
  | [] => (.ok [], t)
  | (key, v) :: rest =>
      match observe o t key depth (.key key :: path) v with
      | (.error e, t) => (.error e, t)
      | (.ok slot, t) =>
          match observeMembers o t depth path rest with
          | (.ok fields, t) => (.ok (⟨"", key, slot⟩ :: fields), t)
          | (.error e, t) => (.error e, t)

end

/-- The class of a whole document, pinned under `name`. The name is reserved
    before the walk, so that no class inside takes it. -/
def observeRoot (o : Options) (t : ClassTable) (name : String) (v : Json) : Walk ClassId :=
  match v with
  | .object members =>
      match observeMembers o (t.reserveName name) 1 [] members with
      | (.ok fields, t) =>
          let (id, t) := t.registerPinned name (Field.withNames fields)
          (.ok id, t)
      | (.error e, t) => (.error e, t)
  | v => (.error (.notAnObject [] v.kind), t)

theorem observe_tooDeep {o : Options} {depth : Nat} (h : o.maxDepth < depth) (t : ClassTable)
    (hint : String) (path : List Step) (v : Json) :
    observe o t hint depth path v = (.error (.tooDeep path.reverse o.maxDepth), t) := by
  unfold observe
  simp [h]

end Inference

end DartModels
