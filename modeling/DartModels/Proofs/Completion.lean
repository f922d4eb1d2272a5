import DartModels.Proofs.Conformance
import DartModels.Proofs.Distinct

/-!
# Completed documents

A document as it comes back from a program that has read it.

A program keeps a value for each field of a class and writes all of them, so an
object comes back with every key of its class. The keys that it lacked hold
nulls. A number in the place of a double is held as one, and comes back as one
also if it had been written as an integer. Everything else stays, and so does
whatever stands in a place without a type.

The completed object has its own keys first and the added ones behind them. A
program writes the keys in the order of the fields, so only the set of keys and
the value of each are of interest here.

## Main definitions

* `Json.nesting`: How many objects deep a document is.
* `Json.completed`: The document that is to come back from a slot.
* `Json.lookup`: The value of a key, where a missing one is null.

## Theorems

* `Json.mem_keys_completed`: A completed object has the keys of its class.
* `Json.find?_completed`: What it has for each of them.
-/

namespace DartModels

namespace Json

/-- Induction over a document, with all items of an array and all members of an
    object at once. -/
theorem of_parts {P : Json → Prop} (null : P .null) (bool : ∀ b, P (.bool b))
    (number : ∀ n, P (.number n)) (string : ∀ s, P (.string s))
    (array : ∀ items, (∀ v ∈ items, P v) → P (.array items))
    (object : ∀ members, (∀ m ∈ members, P m.2) → P (.object members)) (v : Json) : P v :=
  @Json.rec P (fun items => ∀ v ∈ items, P v) (fun members => ∀ m ∈ members, P m.2)
    (fun m => P m.2) null bool number string array object
    (fun _ h => absurd h List.not_mem_nil) (fun _ _ h ih => List.forall_mem_cons.mpr ⟨h, ih⟩)
    (fun _ h => absurd h List.not_mem_nil) (fun _ _ h ih => List.forall_mem_cons.mpr ⟨h, ih⟩)
    (fun _ _ h => h) v

mutual

/-- How many objects deep a document is. -/
def nesting : Json → Nat
  | .array items => nestingItems items
  | .object members => nestingMembers members + 1
  | _ => 0

/-- The deepest of the elements. -/
def nestingItems : List Json → Nat
  | [] => 0
  | v :: rest => max v.nesting (nestingItems rest)

/-- The deepest of the members. -/
def nestingMembers : List (String × Json) → Nat
  | [] => 0
  | (_, v) :: rest => max v.nesting (nestingMembers rest)

end

/-- Arrays do not count, so an element may be as deep as its array. -/
theorem nesting_item_le {items : List Json} {v : Json} (h : v ∈ items) :
    v.nesting ≤ (Json.array items).nesting := by
  rw [nesting]
  induction items with
  | nil => exact absurd h List.not_mem_nil
  | cons u rest ih =>
      rw [nestingItems]
      rcases List.mem_cons.mp h with rfl | h
      · exact Nat.le_max_left _ _
      · exact Nat.le_trans (ih h) (Nat.le_max_right _ _)

/-- A member is less deep than its object. -/
theorem nesting_member_lt {members : List (String × Json)} {m : String × Json}
    (h : m ∈ members) : m.2.nesting < (Json.object members).nesting := by
  rw [nesting]
  refine Nat.lt_succ_of_le ?_
  induction members with
  | nil => exact absurd h List.not_mem_nil
  | cons n rest ih =>
      rw [nestingMembers]
      rcases List.mem_cons.mp h with rfl | h
      · exact Nat.le_max_left _ _
      · exact Nat.le_trans (ih h) (Nat.le_max_right _ _)

/-- Null for every field whose key an object lacks. -/
def missing (members : List (String × Json)) (fields : List Field) : List (String × Json) :=
  (fields.filter fun f => (find? members f.key).isNone).map fun f => (f.key, .null)

/-- A number as a double. -/
def Number.toFloat : Number → Float
  | .integer n => Float.ofInt n
  | .double x => x

mutual

/-- The document that is to come back from a slot: with null for the keys that
    its objects lack, and doubles in the places of doubles. -/
def completed (t : ClassTable) : Json → Slot → Json
  | .number n, s => .number (if s.shape = .primitive .double then .double n.toFloat else n)
  | .array items, s =>
      match s.shape with
      | .list item nullable => .array (completedItems t items ⟨item, nullable⟩)
      | _ => .array items
  | .object members, s =>
      match s.shape with
      | .ref id =>
          match t.find? id with
          | some c => .object (completedMembers t members c.fields ++ missing members c.fields)
          | none => .object members
      | _ => .object members
  | v, _ => v

/-- The elements of an array, all completed in the slot of the list. -/
def completedItems (t : ClassTable) : List Json → Slot → List Json
  | [], _ => []
  | v :: rest, s => completed t v s :: completedItems t rest s

/-- The members of an object, each completed in the slot of its field. A key without a
    field keeps its value. -/
def completedMembers (t : ClassTable) :
    List (String × Json) → List Field → List (String × Json)
  | [], _ => []
  | (key, v) :: rest, fields =>
      (key, match Field.find? fields key with
        | some f => completed t v f.slot
        | none => v) :: completedMembers t rest fields

end

variable {t : ClassTable} {members : List (String × Json)} {fields : List Field} {key : String}

/-- For a list that is not taken apart, completing is a map. -/
theorem completedItems_eq_map (t : ClassTable) (items : List Json) (s : Slot) :
    completedItems t items s = items.map fun v => v.completed t s := by
  induction items with
  | nil => rfl
  | cons v rest ih => rw [completedItems, ih, List.map_cons]

/-- Completing changes values only. -/
theorem keys_completedMembers (t : ClassTable) (members : List (String × Json))
    (fields : List Field) :
    (completedMembers t members fields).map Prod.fst = members.map Prod.fst := by
  induction members with
  | nil => rfl
  | cons m rest ih =>
      rcases m with ⟨key, v⟩
      rw [completedMembers, List.map_cons, ih, List.map_cons]

/-- A member is completed in the slot of the field that has its key. -/
theorem mem_completedMembers {v : Json} {f : Field} (hm : (key, v) ∈ members)
    (hf : Field.find? fields key = some f) :
    (key, v.completed t f.slot) ∈ completedMembers t members fields := by
  induction members with
  | nil => exact absurd hm List.not_mem_nil
  | cons m rest ih =>
      rcases m with ⟨k, u⟩
      rw [completedMembers]
      rcases List.mem_cons.mp hm with heq | hm
      · cases heq
        rw [hf]
        exact List.mem_cons_self
      · exact List.mem_cons_of_mem _ (ih hm)

/-- In the slot of a primitive there is nothing to complete, except where doubles are
    expected. -/
theorem completed_of_primitive (t : ClassTable) (v : Json) {s : Slot} {p : Primitive}
    (hs : s.shape = .primitive p) (hp : p ≠ .double) : v.completed t s = v := by
  cases v with
  | null | bool _ | string _ => rfl
  | number n => rw [completed, hs, if_neg fun h => hp (Shape.primitive.inj h)]
  | array items => rw [completed, hs]
  | object members => rw [completed, hs]

/-! ### Completed objects -/

/-- The keys that are added are those of the fields that the object lacks. -/
theorem keys_missing (members : List (String × Json)) (fields : List Field) :
    (missing members fields).map Prod.fst =
      (fields.filter fun f => (find? members f.key).isNone).map Field.key := by
  rw [missing, List.map_map]
  rfl

/-- An added key is none of the object, so all keys are still distinct. -/
theorem nodup_completed (hm : (members.map Prod.fst).Nodup) (hf : (fields.map Field.key).Nodup) :
    ((completedMembers t members fields ++ missing members fields).map Prod.fst).Nodup := by
  rw [List.map_append, keys_completedMembers, keys_missing, List.nodup_append]
  refine ⟨hm, hf.sublist (List.filter_sublist.map _), fun k hk j hj hkj => ?_⟩
  rcases List.mem_map.mp hj with ⟨f, hmem, rfl⟩
  exact find?_eq_none_iff.mp (Option.isNone_iff_eq_none.mp (List.mem_filter.mp hmem).2) (hkj ▸ hk)

/-- A completed object has the keys of the fields. -/
theorem mem_keys_completed (h : ∀ m ∈ members, ∃ f ∈ fields, f.key = m.1) :
    key ∈ (completedMembers t members fields ++ missing members fields).map Prod.fst ↔
      key ∈ fields.map Field.key := by
  rw [List.map_append, keys_completedMembers, keys_missing, List.mem_append]
  constructor
  · rintro (hmem | hmem)
    · -- A key of the object is one of the fields by assumption, and an added one is so by
      -- definition.
      rcases List.mem_map.mp hmem with ⟨m, hm, rfl⟩
      rcases h m hm with ⟨f, hf, hkey⟩
      exact List.mem_map.mpr ⟨f, hf, hkey⟩
    · rcases List.mem_map.mp hmem with ⟨f, hf, rfl⟩
      exact List.mem_map_of_mem (List.mem_filter.mp hf).1
  · intro hmem
    rcases List.mem_map.mp hmem with ⟨f, hf, rfl⟩
    -- A field whose key the object has is among its members, any other is added.
    by_cases hkey : f.key ∈ members.map Prod.fst
    · exact Or.inl hkey
    · refine Or.inr (List.mem_map_of_mem (List.mem_filter.mpr ⟨hf, ?_⟩))
      exact Option.isNone_iff_eq_none.mpr (find?_eq_none_iff.mpr hkey)

/-- The value of a key, as the program sees it. -/
def lookup (members : List (String × Json)) (key : String) : Json :=
  (find? members key).getD .null

/-- A limit for an object leaves one less for the values of its keys. -/
theorem exists_limit_lookup {limit : Nat} (h : (Json.object members).nesting ≤ limit) :
    ∃ n, limit = n + 1 ∧ ∀ key, (lookup members key).nesting ≤ n := by
  rcases Nat.exists_eq_add_one.mpr (Nat.lt_of_lt_of_le (Nat.succ_pos _) h) with ⟨n, rfl⟩
  refine ⟨n, rfl, fun key => ?_⟩
  rw [lookup]
  cases hfind : find? members key with
  | none => exact Nat.zero_le n
  | some v =>
      exact Nat.lt_succ_iff.mp (Nat.lt_of_lt_of_le (nesting_member_lt (mem_of_find? hfind)) h)

/-- In the completed object each field finds its own value, completed, or null. -/
theorem find?_completed (hm : (members.map Prod.fst).Nodup) (hf : (fields.map Field.key).Nodup)
    {f : Field} (hmem : f ∈ fields) :
    find? (completedMembers t members fields ++ missing members fields) f.key =
      some ((lookup members f.key).completed t f.slot) := by
  rw [find?_eq_some_iff (nodup_completed hm hf), lookup, List.mem_append]
  -- A key that is there is among the completed members, any other among the added.
  cases hfind : find? members f.key with
  | none =>
      refine Or.inr (List.mem_map.mpr ⟨f, List.mem_filter.mpr ⟨hmem, ?_⟩, rfl⟩)
      rw [hfind, Option.isNone_none]
  | some v =>
      exact Or.inl (mem_completedMembers ((find?_eq_some_iff hm).mp hfind)
        ((Field.find?_eq_some_iff hf).mpr ⟨hmem, rfl⟩))

end Json

end DartModels
