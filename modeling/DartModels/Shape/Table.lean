import DartModels.Shape.Basic
import DartModels.Identifier
import Std.Data.TreeMap
import Std.Data.TreeSet

/-!
# The class table

The classes discovered so far, and what merging does to them.

Numbers of classes are held in many places at once: in the fields of other
classes, and by an inference that is still under way. So a class is never
removed or moved. When two classes turn out to be one, the entry of the one
that gives way is replaced by a pointer to the one that stays, and whoever
asks for it later is sent on. The class that stayed may give way in turn, so
pointers form chains. Only live classes are ever given a pointer, and only one
to another live class; a chain therefore never closes on itself, and it has
fewer links than the table has entries.

Which of two classes stays is decided by age: the one with the smaller number,
because it was seen first. The one exception is the root class, whose name was
promised to the caller. It is pinned and stays whatever it meets.

The table keeps two summaries of itself. The index finds the first live class
with a given signature, so that a shape seen before is recognised without a
search. Signatures contain the numbers of other classes, and therefore every
change of an entry may change the signature of classes that were not touched;
after each such change references are updated and the index is built anew.
The set of names holds every name that a new class must avoid: the core types,
the names that were reserved, and those of the live classes.

## Main definitions

* `ClassTable`: The table.
* `resolve`, `find?`, `classes`: What it holds.
* `registerOrReuse`, `registerPinned`: Adding a class.
* `absorb`, `replaceFields`: The two halves of a merge.
* `foldDuplicates`: Making equal classes one until no two are equal.

## Theorems

* `resolve_of_live`: The number of a live class is its own.
-/

namespace DartModels

/-- An entry of the class table. -/
inductive ClassTable.Entry where
  /-- A class of its own. -/
  | live (c : ClassDef)
  /-- A class that was merged into another. -/
  | merged (into : ClassId)

/-- The classes discovered so far. -/
structure ClassTable where
  /-- One entry for each number that was given out. -/
  entries : Array ClassTable.Entry
  /-- The first live class with a given signature. -/
  index : Std.TreeMap String ClassId
  /-- The names that a new class must avoid. -/
  names : Std.TreeSet String
  /-- The root class, once it is registered. -/
  pinned : Option ClassId

namespace ClassTable

/-- The class of an entry that has one. -/
def Entry.class? : Entry → Option ClassDef
  | .live c => some c
  | .merged _ => none

/-- A table without classes. The core types are spoken for from the start. -/
def empty : ClassTable :=
  ⟨#[], ∅, Std.TreeSet.ofList Identifier.coreTypes, none⟩

/-- Keep a name away from the classes to come. -/
def reserveName (t : ClassTable) (name : String) : ClassTable :=
  { t with names := t.names.insert name }

/-- Where the pointers lead from a number, following at most `n` of them. -/
def follow (entries : Array Entry) : Nat → ClassId → ClassId
  | 0, id => id
  | n + 1, id =>
      match entries[id]? with
      | some (.merged into) => follow entries n into
      | _ => id

/-- The live class that a number stands for now. No chain of pointers is as
    long as the table. -/
def resolve (t : ClassTable) (id : ClassId) : ClassId :=
  follow t.entries t.entries.size id

/-- The class that a number stands for now. -/
def find? (t : ClassTable) (id : ClassId) : Option ClassDef :=
  t.entries[t.resolve id]?.bind Entry.class?

/-- The live classes in the order of their discovery. -/
def classes (t : ClassTable) : List ClassDef :=
  t.entries.toList.filterMap Entry.class?

/-- The number of live classes. -/
def size (t : ClassTable) : Nat :=
  t.classes.length

/-- Whether a number is that of the pinned class. -/
def isPinned (t : ClassTable) (id : ClassId) : Bool :=
  t.pinned == some id

/-- Fields whose references are to live classes. -/
def canonical (t : ClassTable) (fields : List Field) : List Field :=
  fields.map (Field.mapIds t.resolve)

/-! ### Keeping the table consistent -/

/-- Apply a change to every live class. -/
def mapClasses (t : ClassTable) (f : ClassDef → ClassDef) : ClassTable :=
  { t with entries := t.entries.map fun
      | .live c => .live (f c)
      | .merged into => .merged into }

/-- Point every reference at a live class. -/
def updateReferences (t : ClassTable) : ClassTable :=
  t.mapClasses (ClassDef.mapIds t.resolve)

/-- Build the index anew. A signature that occurs twice leads to the class
    that was seen first. -/
def reindex (t : ClassTable) : ClassTable :=
  { t with index := t.classes.foldl (fun index c => index.insertIfNew c.signature c.id) ∅ }

/-- Make up for a redirected entry: references first, since they are part of
    signatures. -/
def settle (t : ClassTable) : ClassTable :=
  t.updateReferences.reindex

/-- Let the class `source` give way to `target`. Its name is free again. -/
def redirect (t : ClassTable) (source target : ClassId) : ClassTable :=
  { t with
    entries := t.entries.setIfInBounds source (.merged target)
    names :=
      match t.entries[source]? with
      | some (.live c) => t.names.erase c.name
      | _ => t.names }

/-- Of two classes, the one that stays and the one that gives way: the pinned
    class stays, and otherwise the one that was seen first. -/
def orderPair (t : ClassTable) (a b : ClassId) : ClassId × ClassId :=
  if t.isPinned b || (!t.isPinned a && b < a) then (b, a) else (a, b)

/-! ### Adding classes -/

/-- The number of names that are tried for a class. -/
def maxNameAttempts : Nat := 10000

/-- The failure to find a name for a class. -/
structure NamesExhausted where
  base : String
  attempts : Nat
  deriving DecidableEq

/-- Add a class under the next number. -/
def push (t : ClassTable) (name : String) (fields : List Field) : ClassId × ClassTable :=
  let id := t.entries.size
  let c : ClassDef := ⟨id, name, fields⟩
  (id, { t with
    entries := t.entries.push (.live c)
    index := t.index.insertIfNew c.signature id
    names := t.names.insert name })

/-- The live class with these fields, if the index knows one. The references
    in the fields have to be canonical. -/
def lookup? (t : ClassTable) (fields : List Field) : Option ClassId :=
  let signature := (ClassDef.mk t.entries.size "" fields).signature
  (t.index[signature]?).bind fun id =>
    let id := t.resolve id
    (t.find? id).bind fun c => if c.signature = signature then some id else none

/-- The class with these fields: the one that is there already, or a new one
    called `base`, or `base` with the first number that makes it free. If
    there is no free name the table stays as it is. -/
def registerOrReuse (t : ClassTable) (base : String) (fields : List Field) :
    Except NamesExhausted (ClassId × ClassTable) :=
  let fields := t.canonical fields
  match t.lookup? fields with
  | some id => .ok (id, t)
  | none =>
      match Identifier.firstFree t.names.contains base maxNameAttempts with
      | some name => .ok (t.push name fields)
      | none => .error ⟨base, maxNameAttempts⟩

/-- Add the root class under exactly this name. It is never taken for another
    class of the same shape, and it stays in every merge to come. -/
def registerPinned (t : ClassTable) (name : String) (fields : List Field) :
    ClassId × ClassTable :=
  let (id, t) := t.push name (t.canonical fields)
  (id, { t with pinned := some id })

/-! ### Merging -/

/-- Give a live class another name. Its old name is free again. -/
def rename (t : ClassTable) (id : ClassId) (name : String) : ClassTable :=
  match t.find? id with
  | none => t
  | some c =>
      { t with
        entries := t.entries.setIfInBounds (t.resolve id) (.live { c with name })
        names := (t.names.erase c.name).insert name }

/-- The first half of a merge: one of the two classes gives way at once, so
    that whatever is merged below them, even a class that contains itself,
    already finds a single class. The one that stays takes the name of `a`
    unless it is pinned. Its fields are left as they are. -/
def absorb (t : ClassTable) (a b : ClassId) : ClassId × ClassTable :=
  let a := t.resolve a
  let b := t.resolve b
  if a = b then (a, t)
  else
    let (survivor, absorbed) := t.orderPair a b
    -- The name is read first, since the redirection may take its owner away.
    let name := ((t.find? a).map ClassDef.name).getD ""
    let t' := t.redirect absorbed survivor
    let t' := if absorbed = a && !t.isPinned survivor then t'.rename survivor name else t'
    (survivor, t'.settle)

/-- If the index knows another class with the signature of `id`, make the two
    one. The result is the class that stays. -/
def foldIntoTwin (t : ClassTable) (id : ClassId) : ClassId × ClassTable :=
  match t.find? id with
  | none => (id, t)
  | some c =>
      match t.index[c.signature]? with
      | none => (id, t)
      | some twin =>
          let twin := t.resolve twin
          -- The class itself may be the first with its signature.
          if twin = id then (id, t)
          else
            let (survivor, absorbed) := t.orderPair twin id
            (survivor, (t.redirect absorbed survivor).settle)

/-- Replace the fields of a live class. -/
def setFields (t : ClassTable) (id : ClassId) (fields : List Field) : ClassTable :=
  match t.find? id with
  | none => t
  | some c =>
      { t with entries := t.entries.setIfInBounds (t.resolve id) (.live { c with fields }) }

/-- The second half of a merge: give a class its new fields, and make it one
    with an earlier class that has the same. -/
def replaceFields (t : ClassTable) (id : ClassId) (fields : List Field) : ClassId × ClassTable :=
  let fields := t.canonical fields
  let id := t.resolve id
  (t.setFields id fields).reindex.foldIntoTwin id

/-! ### Folding -/

/-- The live classes whose signature an earlier one has already, each with the
    first such class. `seen` holds the first class of every signature. -/
def duplicates (seen : Std.TreeMap String ClassId) : List ClassDef → List (ClassId × ClassId)
  | [] => []
  | c :: rest =>
      match seen[c.signature]? with
      | some first => (first, c.id) :: duplicates seen rest
      | none => duplicates (seen.insert c.signature c.id) rest

/-- Make two classes one, wherever they have got to by now. -/
def foldPair (t : ClassTable) (first dup : ClassId) : ClassTable :=
  let (survivor, absorbed) := t.orderPair (t.resolve first) (t.resolve dup)
  if survivor = absorbed then t else t.redirect absorbed survivor

/-- Make equal classes one, in at most `rounds` rounds. Folding two classes
    can make the classes that mention them equal in turn, so a round is
    followed by another until one finds nothing to do. -/
def foldRounds : Nat → ClassTable → ClassTable
  | 0, t => t
  | rounds + 1, t =>
      match duplicates ∅ t.classes with
      | [] => t
      -- All pairs of a round are found before the first of them is folded.
      | pairs => foldRounds rounds (pairs.foldl (fun t p => t.foldPair p.1 p.2) t).settle

/-- Make equal classes one until no two live classes are equal. Each round but
    the last leaves fewer live classes, so their number bounds the rounds. -/
def foldDuplicates (t : ClassTable) : ClassTable :=
  foldRounds (t.size + 1) t

theorem resolve_of_live {t : ClassTable} {id : ClassId} {c : ClassDef}
    (h : t.entries[id]? = some (.live c)) : t.resolve id = id := by
  unfold resolve
  cases t.entries.size with
  | zero => rfl
  | succ n => simp only [follow, h]

end ClassTable

end DartModels
