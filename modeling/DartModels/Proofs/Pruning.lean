import DartModels.Conversion

/-!
# Pruned documents

What a conversion without merging sees of a document.

With merging switched off the first element of an array speaks for all, and the
others are not even visited. So they might as well not be there: what comes out
is what the conversion with merging makes of the document whose arrays have been
cut to their first elements. An element that would lie too deep, or be in want of
a name, is no error then, and an object in it makes no class.

The two walks go through the same tables, since an array with one element has
nothing to be joined. They also have the same paths. The first element keeps its
number, and what is cut off lies behind it. That the options differ plays no part
any more when the classes are written out, because nothing that is written
depends on whether arrays are merged.

## Main definitions

* `Json.pruned`: The document with all arrays cut to their first elements.

## Theorems

* `Inference.observe_pruned`: To look at first elements only is to look at the
  pruned document.
* `Dart.source_mergeArrays`: The source of a class does not depend on merging.
* `convert_pruned`: A conversion without merging is the conversion of the pruned
  document.
-/

namespace DartModels

namespace Json

mutual

/-- The document with every array cut to its first element, at any depth. -/
def pruned : Json → Json
  | .array items => .array (prunedItems items)
  | .object members => .object (prunedMembers members)
  | v => v

/-- The first element, pruned. -/
def prunedItems : List Json → List Json
  | [] => []
  | v :: _ => [pruned v]

/-- All members, pruned. -/
def prunedMembers : List (String × Json) → List (String × Json)
  | [] => []
  | (key, v) :: rest => (key, pruned v) :: prunedMembers rest

end

example : pruned (.array [.array [.null, .bool true], .string "a"]) =
    .array [.array [.null]] := rfl

end Json

/-! ### The walk -/

namespace Inference

mutual

/-- Without merging the walk over a value is the walk over the pruned value. -/
theorem observe_pruned (o : Options) (t : ClassTable) (hint : String) (depth : Nat)
    (path : List Step) (v : Json) :
    observe { o with mergeArrays := false } t hint depth path v =
      observe { o with mergeArrays := true } t hint depth path v.pruned := by
  rw [observe.eq_def, observe.eq_def, Json.pruned.eq_def]
  cases v with
  | null | bool _ | number _ | string _ => rfl
  | array items => simp only [observeItems_pruned o t hint (depth + 1) path items]
  | object members => simp only [observeMembers_pruned o t (depth + 1) path members]

/-- Only the first element is visited, if there is one. -/
theorem observeItems_pruned (o : Options) (t : ClassTable) (hint : String) (depth : Nat)
    (path : List Step) (items : List Json) :
    observeItems { o with mergeArrays := false } t hint depth path 0 items =
      observeItems { o with mergeArrays := true } t hint depth path 0 (Json.prunedItems items) := by
  cases items with
  | nil => rfl
  | cons v rest =>
      -- The walk without merging stops at the second element, be there one or not.
      have hstop : ∀ t, observeItems { o with mergeArrays := false } t hint depth path 1 rest =
          (.ok [], t) := fun t => by
        rw [observeItems.eq_def]
        cases rest <;> rfl
      rw [Json.prunedItems, observeItems, observeItems]
      simp only [observe_pruned o t hint depth (.index 0 :: path) v, hstop, observeItems, ne_eq,
        not_true_eq_false, decide_false, Bool.false_and, Bool.false_eq_true, if_false]

/-- The members of an object are all visited, and each is pruned. -/
theorem observeMembers_pruned (o : Options) (t : ClassTable) (depth : Nat) (path : List Step)
    (members : List (String × Json)) :
    observeMembers { o with mergeArrays := false } t depth path members =
      observeMembers { o with mergeArrays := true } t depth path (Json.prunedMembers members) := by
  cases members with
  | nil => rfl
  | cons member rest =>
      rcases member with ⟨key, v⟩
      rw [Json.prunedMembers, observeMembers, observeMembers]
      simp only [observe_pruned o t key depth (.key key :: path) v,
        fun t => observeMembers_pruned o t depth path rest]

end

/-- The same of a whole document. -/
theorem observeRoot_pruned (o : Options) (t : ClassTable) (name : String) (v : Json) :
    observeRoot { o with mergeArrays := false } t name v =
      observeRoot { o with mergeArrays := true } t name v.pruned := by
  cases v with
  | null | bool _ | number _ | string _ => rfl
  | array items => rw [Json.pruned]; rfl
  | object members =>
      rw [Json.pruned, observeRoot, observeRoot, observeMembers_pruned]

end Inference

/-- So its catalog is that of the pruned document. -/
theorem Catalog.ofDocument_pruned (o : Options) (name : String) (v : Json) :
    ofDocument { o with mergeArrays := false } name v =
      ofDocument { o with mergeArrays := true } name v.pruned := by
  rw [ofDocument, ofDocument, Inference.observeRoot_pruned]

/-! ### The source of a class -/

namespace Dart

variable (o : Options) (b : Bool) (c : Catalog)

/-- No type depends on whether arrays were merged. -/
theorem typeOf_mergeArrays (s : Shape) : typeOf { o with mergeArrays := b } c s = typeOf o c s := by
  induction s with
  | primitive p => cases p <;> rfl
  | list item nullable ih =>
      rw [typeOf, typeOf, ih]
      rfl
  | ref id => rfl

/-- No read does. -/
theorem read_mergeArrays (source : Expr) (depth : Nat) (nullable : Bool) (s : Shape) :
    read { o with mergeArrays := b } c source depth nullable s =
      read o c source depth nullable s := by
  induction s generalizing source depth nullable with
  | primitive p => cases p <;> rfl
  | list item itemNullable ih =>
      rw [read, read, ih]
      rfl
  | ref id => rfl

/-- No write does. -/
theorem write?_mergeArrays (source : Expr) (depth : Nat) (nullable : Bool) (s : Shape) :
    write? { o with mergeArrays := b } source depth nullable s =
      write? o source depth nullable s := by
  induction s generalizing source depth nullable with
  | primitive p => rfl
  | list item itemNullable ih =>
      rw [write?, write?, ih]
      rfl
  | ref id => rfl

/-- Whether arrays are merged makes no difference once there are classes. -/
theorem source_mergeArrays (d : ClassDef) :
    source { o with mergeArrays := b } c d = source o c d := by
  have htype : typeOf { o with mergeArrays := b } c = typeOf o c :=
    funext (typeOf_mergeArrays o b c)
  have hslot : slotType { o with mergeArrays := b } c = slotType o c := by
    funext s
    rw [slotType, slotType, htype]
    rfl
  have hread : readField { o with mergeArrays := b } c = readField o c :=
    funext fun f => read_mergeArrays o b c _ _ _ _
  have hwrite : writeField { o with mergeArrays := b } = writeField o := by
    funext f
    rw [writeField, writeField, write?_mergeArrays]
  have hcopy : copyWithLines { o with mergeArrays := b } c d = copyWithLines o c d := by
    rw [copyWithLines, copyWithLines, htype]
    rfl
  simp only [source, declaration, fieldLines, fromJsonLines, toJsonLines, hslot, hread, hwrite,
    hcopy]
  rfl

end Dart

/-- Neither do the units that are written. -/
theorem Catalog.units_mergeArrays (o : Options) (b : Bool) (c : Catalog) :
    c.units { o with mergeArrays := b } = c.units o := by
  rw [units, units]
  exact List.map_congr_left fun d _ => by rw [Dart.source_mergeArrays]

/-- A conversion without merging gives what the conversion with merging gives for
    the document whose arrays are cut to their first elements: the same units in
    the same order, or the same error at the same place. -/
theorem convert_pruned (o : Options) (name : String) (v : Json) :
    convert { o with mergeArrays := false } name v =
      convert { o with mergeArrays := true } name v.pruned := by
  have hunits : Catalog.units { o with mergeArrays := false } =
      Catalog.units { o with mergeArrays := true } := funext fun c =>
    (Catalog.units_mergeArrays o false c).trans (Catalog.units_mergeArrays o true c).symm
  rw [convert, convert, Catalog.ofDocument_pruned, hunits]

end DartModels
