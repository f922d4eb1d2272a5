import DartModels.Proofs.Marks
import DartModels.Proofs.Operation
import DartModels.Proofs.Signature
import Mathlib.Data.List.Forall2

/-!
# Outlines

The form of a value as it is seen through the first elements of its arrays.

Without merging, all that an array contributes is its first element. What is then
left of a value is a finite tree without any classes in it: primitives, lists of
one element or none, and records of keys. That tree is the outline of the value.

Slots say the same with numbers of classes in the place of records. If the record
behind every number is known, and no record has two numbers, then slots and
outlines determine each other. The list of records is a second account of a class
table, kept beside it for the sake of the proofs.

## Main definitions

* `Outline`, `Json.outline`: The form of a value.
* `Marked.visited`, `Marked.visitedBelow`: The objects that are reached through
  first elements, with and without the root.
* `Json.keys`: The keys of a document, at any depth.
* `Slot.Depicts`: A slot says the same as an outline.

## Theorems

* `Slot.Depicts.outline_eq`, `Slot.Depicts.slot_eq`: A slot depicts one outline, and
  an outline is depicted by one slot.
* `Slot.Depicts.nullable_iff`: Nothing but a null makes a slot nullable.
-/

namespace DartModels

/-- The form of a value, with every array reduced to its first element. -/
inductive Outline where
  | leaf (p : Primitive)
  /-- A list, with the outline of its first element if there is one. -/
  | list (first : Option Outline)
  | record (members : List (String × Outline))

namespace Outline

mutual

/-- Whether two outlines are equal. -/
def decideEq : (a b : Outline) → Decidable (a = b)
  | .leaf p, .leaf q => decidable_of_iff (p = q) (by rw [leaf.injEq])
  | .list x, .list y =>
      have := decideEqFirst x y
      decidable_of_iff (x = y) (by rw [list.injEq])
  | .record x, .record y =>
      have := decideEqMembers x y
      decidable_of_iff (x = y) (by rw [record.injEq])
  | .leaf _, .list _ | .leaf _, .record _ | .list _, .leaf _ | .list _, .record _
  | .record _, .leaf _ | .record _, .list _ => isFalse nofun

/-- Whether the outlines of two first elements are equal. -/
def decideEqFirst : (a b : Option Outline) → Decidable (a = b)
  | none, none => isTrue rfl
  | some a, some b =>
      have := decideEq a b
      decidable_of_iff (a = b) (by rw [Option.some.injEq])
  | none, some _ | some _, none => isFalse nofun

/-- Whether two records are equal, in the order of their keys. -/
def decideEqMembers : (x y : List (String × Outline)) → Decidable (x = y)
  | [], [] => isTrue rfl
  | (key, a) :: x, (key', b) :: y =>
      have := decideEq a b
      have := decideEqMembers x y
      decidable_of_iff ((key = key' ∧ a = b) ∧ x = y) (by rw [List.cons.injEq, Prod.mk.injEq])
  | [], _ :: _ | _ :: _, [] => isFalse nofun

end

instance : DecidableEq Outline := decideEq

end Outline

namespace Json

mutual

/-- The form of a value. -/
def outline : Json → Outline
  | .null => .leaf .null
  | .bool _ => .leaf .bool
  | .number n => .leaf (Inference.numberShape n)
  | .string _ => .leaf .string
  | .array items => .list (outlineFirst items)
  | .object members => .record (outlineMembers members)

/-- The form of the first element, if there is one. -/
def outlineFirst : List Json → Option Outline
  | [] => none
  | v :: _ => some (outline v)

/-- The forms of the members, under their keys. -/
def outlineMembers : List (String × Json) → List (String × Outline)
  | [] => []
  | (key, v) :: rest => (key, outline v) :: outlineMembers rest

end

mutual

/-- The keys of a document, at any depth. -/
def keys : Json → List String
  | .array items => keysOfItems items
  | .object members => keysOfMembers members
  | _ => []

/-- The keys in the elements of an array. -/
def keysOfItems : List Json → List String
  | [] => []
  | v :: rest => keys v ++ keysOfItems rest

/-- The keys of an object, and those in its members. -/
def keysOfMembers : List (String × Json) → List String
  | [] => []
  | (key, v) :: rest => key :: (keys v ++ keysOfMembers rest)

end

/-- For members that are not taken apart, forming the outline is a map. -/
theorem outlineMembers_eq_map (members : List (String × Json)) :
    outlineMembers members = members.map fun m => (m.1, m.2.outline) := by
  induction members with
  | nil => rw [outlineMembers, List.map_nil]
  | cons m rest ih =>
      rcases m with ⟨key, v⟩
      rw [outlineMembers, List.map_cons, ih]

/-- The keys of a record are keys of the document. -/
theorem mem_keysOfMembers {members : List (String × Json)} {m : String × Outline}
    (hm : m ∈ outlineMembers members) : m.1 ∈ keysOfMembers members := by
  induction members with
  | nil => exact absurd hm List.not_mem_nil
  | cons member rest ih =>
      rcases member with ⟨key, v⟩
      rw [outlineMembers] at hm
      rw [keysOfMembers]
      rcases List.mem_cons.mp hm with rfl | hm
      · exact List.mem_cons_self
      · exact List.mem_cons_of_mem key (List.mem_append_right _ (ih hm))

/-- A number is an integer or a double. -/
theorem numberShape_ne_null (n : Json.Number) : Inference.numberShape n ≠ .null := by
  unfold Inference.numberShape
  split <;> nofun

/-- Nothing but null has the outline of null. -/
theorem outline_eq_null_iff {v : Json} : v.outline = .leaf .null ↔ v.kind = .null := by
  cases v with
  | number n =>
      rw [outline, Outline.leaf.injEq]
      exact ⟨fun h => absurd h (numberShape_ne_null n), nofun⟩
  | null | bool _ | string _ | array _ | object _ => simp [outline, kind]

end Json

namespace Marked

mutual

/-- The objects of a document that are reached through first elements. -/
def visited : Marked → List Node
  | .array items => visitedFirst items
  | .object id members => ⟨id, members⟩ :: visitedMembers members
  | _ => []

/-- What is reached through the first element. -/
def visitedFirst : List Marked → List Node
  | [] => []
  | v :: _ => visited v

/-- What is reached through the members of an object. -/
def visitedMembers : List (String × Marked) → List Node
  | [] => []
  | (_, v) :: rest => visited v ++ visitedMembers rest

end

/-- The same without the document itself. -/
def visitedBelow : Marked → List Node
  | .object _ members => visitedMembers members
  | v => v.visited

/-- The keys of an object with the forms of their values, in order. -/
def Node.outline (n : Node) : List (String × Outline) :=
  Json.outlineMembers (eraseMembers n.members)

/-- The keys of an object, each with whether it holds a null. -/
def Node.nulls (n : Node) : List (String × Bool) :=
  n.members.map fun m => (m.1, decide (m.2.kind = .null))

/-- Marks do not change what kind of value it is. -/
theorem kind_erase (v : Marked) : v.erase.kind = v.kind := by
  cases v <;> rw [erase] <;> rfl

/-- Where an object has nulls can be read off its outline. -/
theorem Node.map_outline (n : Node) :
    (n.outline.map fun m => (m.1, decide (m.2 = .leaf .null))) = n.nulls := by
  rw [outline, Json.outlineMembers_eq_map, eraseMembers_eq_map, List.map_map, List.map_map, nulls]
  refine List.map_congr_left fun m _ => ?_
  simp only [Function.comp_apply, Json.outline_eq_null_iff, kind_erase]

mutual

/-- What is reached inside a value has a smaller form than the value. -/
theorem sizeOf_visited (v : Marked) : ∀ n ∈ v.visited,
    sizeOf (Outline.record n.outline) ≤ sizeOf v.erase.outline := by
  intro n hn
  cases v with
  | null | bool _ | number _ | string _ =>
      rw [visited.eq_def] at hn
      exact absurd hn List.not_mem_nil
  | array items =>
      rw [visited] at hn
      rw [erase, Json.outline]
      cases items with
      | nil => exact absurd hn List.not_mem_nil
      | cons v rest =>
          rw [visitedFirst] at hn
          rw [eraseItems, Json.outlineFirst]
          -- The outline of the first element is a part of that of the list.
          have hle := sizeOf_visited v n hn
          simp only [Outline.list.sizeOf_spec, Option.some.sizeOf_spec]
          omega
  | object id members =>
      rw [visited] at hn
      rw [erase, Json.outline]
      -- The object itself, or one in a member, whose outline is a part of it.
      rcases List.mem_cons.mp hn with rfl | hn
      · exact Nat.le_refl _
      · exact Nat.le_of_lt (sizeOf_visitedMembers members n hn)

/-- What is reached in the members is smaller than their object, which is therefore none
    of them. -/
theorem sizeOf_visitedMembers (members : List (String × Marked)) : ∀ n ∈ visitedMembers members,
    sizeOf (Outline.record n.outline) <
      sizeOf (Outline.record (Json.outlineMembers (eraseMembers members))) := by
  intro n hn
  cases members with
  | nil => exact absurd hn List.not_mem_nil
  | cons m rest =>
      rcases m with ⟨key, v⟩
      rw [visitedMembers] at hn
      rw [eraseMembers, Json.outlineMembers]
      simp only [Outline.record.sizeOf_spec, List.cons.sizeOf_spec, Prod.mk.sizeOf_spec]
      -- The object is in the first member or in one of the others.
      rcases List.mem_append.mp hn with hn | hn
      · have hle := sizeOf_visited v n hn
        simp only [Outline.record.sizeOf_spec] at hle
        omega
      · have hlt := sizeOf_visitedMembers rest n hn
        simp only [Outline.record.sizeOf_spec] at hlt
        omega

end

end Marked

/-! ### Slots and outlines -/

namespace Slot

variable {K : List (List (String × Outline))} {s s' : Slot} {a b : Outline}

/-- A slot says the same as an outline, when the class with number `i` stands for
    the record at place `i` of a list. -/
inductive Depicts (K : List (List (String × Outline))) : Slot → Outline → Prop where
  | null : Depicts K ⟨.null, true⟩ (.leaf .null)
  | leaf {p : Primitive} (hp : p ≠ .null) : Depicts K (.required (.primitive p)) (.leaf p)
  | empty : Depicts K (.required (.list .null false)) (.list none)
  | list {item : Shape} {nullable : Bool} {a : Outline} (h : Depicts K ⟨item, nullable⟩ a) :
      Depicts K (.required (.list item nullable)) (.list (some a))
  | object {i : ClassId} {members : List (String × Outline)} (h : K[i]? = some members) :
      Depicts K (.required (.ref i)) (.record members)

/-- A slot depicts one outline. -/
theorem Depicts.outline_eq (h : Depicts K s a) (h' : Depicts K s b) : a = b := by
  induction h generalizing b with
  | null => cases h' with
    | null => rfl
  | leaf hp => cases h' with
    | leaf _ => rfl
  | empty => cases h' with
    | empty => rfl
    | list hitem => cases hitem with
      -- An element whose slot is that of a null would be nullable.
      | leaf hp => exact absurd rfl hp
  | list hitem ih => cases h' with
    | empty => cases hitem with
      | leaf hp => exact absurd rfl hp
    | list hitem' => rw [ih hitem']
  | object hi => cases h' with
    | object hi' => rw [Option.some.inj (hi.symm.trans hi')]

/-- An outline is depicted by one slot, if no record has two numbers. -/
theorem Depicts.slot_eq (hK : K.Nodup) (h : Depicts K s a) (h' : Depicts K s' a) : s = s' := by
  induction h generalizing s' with
  | null => cases h' with
    | null => rfl
    | leaf hp => exact absurd rfl hp
  | leaf hp => cases h' with
    | null => exact absurd rfl hp
    | leaf _ => rfl
  | empty => cases h' with
    | empty => rfl
  | list _ ih => cases h' with
    | list hitem' => cases ih hitem'; rfl
  | object hi => cases h' with
    | object hi' =>
        -- Records are distinct, so the same record has the same number.
        rcases List.getElem?_eq_some_iff.mp hi with ⟨hlt, _⟩
        rw [(List.getElem?_inj hlt hK).mp (hi.trans hi'.symm)]

/-- Only the slot of a null may be null, so nullability shows in the outline. -/
theorem Depicts.nullable_iff (h : Depicts K s a) : s.nullable = true ↔ a = .leaf .null := by
  cases h with
  | null => exact ⟨fun _ => rfl, fun _ => rfl⟩
  | leaf hp => exact ⟨nofun, fun he => absurd (Outline.leaf.inj he) hp⟩
  | empty | list _ | object _ => exact ⟨nofun, nofun⟩

/-- More records do no harm. -/
theorem Depicts.append (h : Depicts K s a) (K' : List (List (String × Outline))) :
    Depicts (K ++ K') s a := by
  induction h with
  | null => exact .null
  | leaf hp => exact .leaf hp
  | empty => exact .empty
  | list _ ih => exact .list ih
  | object hi =>
      rcases List.getElem?_eq_some_iff.mp hi with ⟨hlt, _⟩
      exact .object ((List.getElem?_append_left hlt).trans hi)

/-- The numbers in such a slot are places of the list. -/
theorem Depicts.known (h : Depicts K s a) : s.Known K.length := by
  induction h with
  | null | leaf _ | empty => exact fun _ hid => absurd hid List.not_mem_nil
  | list _ ih => exact ih
  | object hi =>
      intro id hid
      rw [List.mem_singleton.mp hid]
      exact (List.getElem?_eq_some_iff.mp hi).1

end Slot

/-- The keys of a class with their slots say the same as a record. -/
def Depict (K : List (List (String × Outline))) :
    List (String × Slot) → List (String × Outline) → Prop :=
  List.Forall₂ fun e m => e.1 = m.1 ∧ e.2.Depicts K m.2

section Layouts

variable {K : List (List (String × Outline))} {es es' : List (String × Slot)}
  {ms ms' : List (String × Outline)}

/-- A layout depicts one record. -/
theorem Depict.outline_eq (h : Depict K es ms) (h' : Depict K es ms') : ms = ms' :=
  List.right_unique_forall₂' (fun _ _ _ hx hy => Prod.ext (hx.1.symm.trans hy.1)
    (hx.2.outline_eq hy.2)) h h'

/-- A record is depicted by one layout, if no record has two numbers. -/
theorem Depict.layout_eq (hK : K.Nodup) (h : Depict K es ms) (h' : Depict K es' ms) : es = es' :=
  List.left_unique_forall₂' (fun _ _ _ hx hy => Prod.ext (hx.1.trans hy.1.symm)
    (hx.2.slot_eq hK hy.2)) h h'

/-- More records do no harm to layouts either. -/
theorem Depict.append (h : Depict K es ms) (K' : List (List (String × Outline))) :
    Depict (K ++ K') es ms :=
  h.imp fun _ _ he => ⟨he.1, he.2.append K'⟩

/-- Every key of a layout is one of its record, with a slot that says the same. -/
theorem Depict.exists_outline (h : Depict K es ms) {e : String × Slot} (he : e ∈ es) :
    ∃ m ∈ ms, e.1 = m.1 ∧ e.2.Depicts K m.2 := by
  induction h with
  | nil => exact absurd he List.not_mem_nil
  | cons hhead _ ih =>
      rcases List.mem_cons.mp he with rfl | he
      · exact ⟨_, List.mem_cons_self, hhead⟩
      · rcases ih he with ⟨m, hm, hdepicts⟩
        exact ⟨m, List.mem_cons_of_mem _ hm, hdepicts⟩

/-- The keys that may be null are those that hold a null in the record. -/
theorem Depict.map_nullable (h : Depict K es ms) : (es.map fun e => (e.1, e.2.nullable)) =
    ms.map fun m => (m.1, decide (m.2 = .leaf .null)) := by
  induction h with
  | nil => rfl
  | cons hhead _ ih =>
      rw [List.map_cons, List.map_cons, ih, hhead.1,
        Bool.eq_iff_iff.mpr (hhead.2.nullable_iff.trans decide_eq_true_iff.symm)]

end Layouts

end DartModels
