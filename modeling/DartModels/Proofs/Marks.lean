import DartModels.Shape.Catalog

/-!
# Marked documents

A document together with what became of its objects: every object carries the
number that its registration returned.

Inference forgets which object led to which class, because classes are shared
and merged and nothing of it is needed for the result. Statements about the
result do need it. A field that may be null is justified by some object of the
class that lacks the key, and to name that object one has to know to which class
the objects of the document belong. The number in a marked document is the one
from the moment of registration; what class it stands for later is a question
to the table of that later moment.

The marks are computed by following the walk, and `erase_mark` says that they
are all that was added.

## Main definitions

* `Marked`, `Marked.erase`: Documents with marks, and without them again.
* `Marked.Node`, `Marked.nodes`: The objects of a marked document.
* `Inference.mark`, `Inference.markRoot`: The marks that a walk leaves.

## Theorems

* `Inference.erase_markRoot`: Only the marks are new.
-/

namespace DartModels

/-- A document whose objects carry numbers of classes. -/
inductive Marked where
  | null
  | bool (value : Bool)
  | number (value : Json.Number)
  | string (value : String)
  | array (items : List Marked)
  | object (id : ClassId) (members : List (String × Marked))

namespace Marked

/-- An object of a marked document. -/
structure Node where
  /-- The number that its registration returned. -/
  id : ClassId
  members : List (String × Marked)

/-- Whether an object has no member with this key. -/
def Node.Lacks (n : Node) (key : String) : Prop :=
  ∀ m ∈ n.members, m.1 ≠ key

/-- The kind of a value. -/
def kind : Marked → Json.Kind
  | .null => .null
  | .bool _ => .boolean
  | .number _ => .number
  | .string _ => .string
  | .array _ => .array
  | .object _ _ => .object

mutual

/-- The document without the marks. -/
def erase : Marked → Json
  | .null => .null
  | .bool b => .bool b
  | .number n => .number n
  | .string s => .string s
  | .array items => .array (eraseItems items)
  | .object _ members => .object (eraseMembers members)

/-- The elements of an array without the marks. -/
def eraseItems : List Marked → List Json
  | [] => []
  | v :: rest => erase v :: eraseItems rest

/-- The members of an object without the marks. Keys have none. -/
def eraseMembers : List (String × Marked) → List (String × Json)
  | [] => []
  | (key, v) :: rest => (key, erase v) :: eraseMembers rest

end

mutual

/-- The objects of a document, at any depth. -/
def nodes : Marked → List Node
  | .array items => nodesOfItems items
  | .object id members => ⟨id, members⟩ :: nodesOfMembers members
  | _ => []

/-- The objects in the elements of an array. -/
def nodesOfItems : List Marked → List Node
  | [] => []
  | v :: rest => nodes v ++ nodesOfItems rest

/-- The objects in the members of an object, and not that object itself. -/
def nodesOfMembers : List (String × Marked) → List Node
  | [] => []
  | (_, v) :: rest => nodes v ++ nodesOfMembers rest

end

/-- For lists that are not taken apart, erasing is a map. -/
theorem eraseItems_eq_map (items : List Marked) : eraseItems items = items.map erase := by
  induction items with
  | nil => rw [eraseItems, List.map_nil]
  | cons v rest ih => rw [eraseItems, List.map_cons, ih]

/-- So it is for members. -/
theorem eraseMembers_eq_map (members : List (String × Marked)) :
    eraseMembers members = members.map fun m => (m.1, m.2.erase) := by
  induction members with
  | nil => rw [eraseMembers, List.map_nil]
  | cons m rest ih =>
      rcases m with ⟨key, v⟩
      rw [eraseMembers, List.map_cons, ih]

/-- The objects in the elements are those of some element. -/
theorem mem_nodesOfItems {items : List Marked} {n : Node} :
    n ∈ nodesOfItems items ↔ ∃ v ∈ items, n ∈ v.nodes := by
  induction items with
  | nil => simp only [nodesOfItems, List.not_mem_nil, false_and, exists_false]
  | cons v rest ih => simp only [nodesOfItems, List.mem_append, ih, List.mem_cons, exists_eq_or_imp]

/-- The objects in the members are those of some value. -/
theorem mem_nodesOfMembers {members : List (String × Marked)} {n : Node} :
    n ∈ nodesOfMembers members ↔ ∃ m ∈ members, n ∈ m.2.nodes := by
  induction members with
  | nil => simp only [nodesOfMembers, List.not_mem_nil, false_and, exists_false]
  | cons m rest ih =>
      rcases m with ⟨key, v⟩
      simp only [nodesOfMembers, List.mem_append, ih, List.mem_cons, exists_eq_or_imp]

/-- Induction on a document, with the elements of an array and the members of an
    object below it. -/
@[elab_as_elim]
theorem induction {P : Marked → Prop} (null : P .null) (bool : ∀ b, P (.bool b))
    (number : ∀ n, P (.number n)) (string : ∀ s, P (.string s))
    (array : ∀ items, (∀ v ∈ items, P v) → P (.array items))
    (object : ∀ id members, (∀ m ∈ members, P m.2) → P (.object id members)) : ∀ v, P v
  | .null => null
  | .bool b => bool b
  | .number n => number n
  | .string s => string s
  | .array items => array items fun v _ =>
      induction null bool number string array object v
  | .object id members => object id members fun m _ =>
      induction null bool number string array object m.2
termination_by v => sizeOf v
decreasing_by
  · rename_i hv
    have hlt := List.sizeOf_lt_of_mem hv
    simp only [Marked.array.sizeOf_spec]
    omega
  -- A member is a pair, so its value is two levels down.
  · rename_i hm
    have hlt := List.sizeOf_lt_of_mem hm
    have hpair : sizeOf m = 1 + sizeOf m.1 + sizeOf m.2 := rfl
    simp only [Marked.object.sizeOf_spec]
    omega

end Marked

namespace Inference

/-- The number in the slot of an object. -/
def classOf : Walk Slot → ClassId
  | (.ok ⟨.ref id, _⟩, _) => id
  | _ => 0

mutual

/-- The value at `path` with the marks that the walk over it leaves. -/
def mark (o : Options) (t : ClassTable) (hint : String) (depth : Nat) (path : List Step)
    (v : Json) : Marked :=
  match v with
  | .null => .null
  | .bool b => .bool b
  | .number n => .number n
  | .string s => .string s
  | .array items => .array (markItems o t hint (depth + 1) path 0 items)
  | .object members =>
      .object (classOf (observe o t hint depth path (.object members)))
        (markMembers o t (depth + 1) path members)

/-- The elements of an array from number `i` on, with marks. -/
def markItems (o : Options) (t : ClassTable) (hint : String) (depth : Nat) (path : List Step)
    (i : Nat) : List Json → List Marked
  | [] => []
  | v :: rest =>
      -- Each element is walked over in the table that the one before left.
      mark o t hint depth (.index i :: path) v ::
        markItems o (observe o t hint depth (.index i :: path) v).2 hint depth path (i + 1) rest

/-- The members of an object, with marks. -/
def markMembers (o : Options) (t : ClassTable) (depth : Nat) (path : List Step) :
    List (String × Json) → List (String × Marked)
  | [] => []
  | (key, v) :: rest =>
      (key, mark o t key depth (.key key :: path) v) ::
        markMembers o (observe o t key depth (.key key :: path) v).2 depth path rest

end

/-- A whole document with the marks that its inference leaves. -/
def markRoot (o : Options) (t : ClassTable) (name : String) (v : Json) : Marked :=
  match v, (observeRoot o t name v).1 with
  | .object members, .ok id => .object id (markMembers o (t.reserveName name) 1 [] members)
  | v, _ => mark o t name 0 [] v

mutual

/-- The marks of a walk over a value come off again. -/
theorem erase_mark (o : Options) (t : ClassTable) (hint : String) (depth : Nat)
    (path : List Step) (v : Json) : (mark o t hint depth path v).erase = v := by
  cases v with
  | null | bool _ | number _ | string _ => rw [mark.eq_def, Marked.erase.eq_def]
  | array items =>
      rw [mark.eq_def, Marked.erase.eq_def]
      exact congrArg Json.array (eraseItems_markItems o t hint (depth + 1) path 0 items)
  | object members =>
      rw [mark.eq_def, Marked.erase.eq_def]
      exact congrArg Json.object (eraseMembers_markMembers o t (depth + 1) path members)

/-- The same for the elements of an array, each walked over in the table that the one
    before left. -/
theorem eraseItems_markItems (o : Options) (t : ClassTable) (hint : String) (depth : Nat)
    (path : List Step) (i : Nat) (items : List Json) :
    Marked.eraseItems (markItems o t hint depth path i items) = items := by
  cases items with
  | nil => rw [markItems.eq_def, Marked.eraseItems.eq_def]
  | cons v rest =>
      rw [markItems.eq_def, Marked.eraseItems.eq_def]
      simp only [erase_mark o t hint depth (.index i :: path) v,
        eraseItems_markItems o _ hint depth path (i + 1) rest]

/-- The same for the members of an object. -/
theorem eraseMembers_markMembers (o : Options) (t : ClassTable) (depth : Nat) (path : List Step)
    (members : List (String × Json)) :
    Marked.eraseMembers (markMembers o t depth path members) = members := by
  cases members with
  | nil => rw [markMembers.eq_def, Marked.eraseMembers.eq_def]
  | cons member rest =>
      -- Keys have no marks, so only the values matter.
      rcases member with ⟨key, v⟩
      rw [markMembers.eq_def, Marked.eraseMembers.eq_def]
      simp only [erase_mark o t key depth (.key key :: path) v,
        eraseMembers_markMembers o _ depth path rest]

end

/-- Taking the marks away gives the document back. -/
theorem erase_markRoot (o : Options) (t : ClassTable) (name : String) (v : Json) :
    (markRoot o t name v).erase = v := by
  unfold markRoot
  split
  · rw [Marked.erase.eq_def]
    exact congrArg Json.object (eraseMembers_markMembers o _ 1 [] _)
  · exact erase_mark o t name 0 [] _

end Inference

end DartModels
