import DartModels.Proofs.Reading
import Mathlib.Data.List.Basic

/-!
# Distinct keys

No object of a document has a key twice.

The members of an object are an association list, so the type of documents does
not rule a repeated key out. What builds objects does: a member is inserted into
those that are there, and a second value of a key takes the place of the first.

## Main definitions

* `Json.Distinct`: No object has a key twice, at any depth.

## Theorems

* `Json.find?_eq_some_iff`: With distinct keys, to be found is to be a member.
* `Json.foldl_insertMember`: Inserting distinct keys appends them.
* `Json.distinct_read`: A document that was read has no key twice.
-/

namespace DartModels

namespace Json

mutual

/-- No object has a key twice. -/
def Distinct : Json → Prop
  | .array items => DistinctItems items
  | .object members => (members.map Prod.fst).Nodup ∧ DistinctMembers members
  | _ => True

/-- No object in the elements of an array has a key twice. -/
def DistinctItems : List Json → Prop
  | [] => True
  | v :: rest => Distinct v ∧ DistinctItems rest

/-- No object in the members has a key twice. The keys of the members themselves are not
    looked at here. -/
def DistinctMembers : List (String × Json) → Prop
  | [] => True
  | (_, v) :: rest => Distinct v ∧ DistinctMembers rest

end

/-- For a list that is not taken apart, all elements are distinct in this sense. -/
theorem distinctItems_iff {items : List Json} : DistinctItems items ↔ ∀ v ∈ items, v.Distinct := by
  induction items with
  | nil => simp only [DistinctItems, List.not_mem_nil, false_implies, implies_true]
  | cons v rest ih => simp only [DistinctItems, ih, List.forall_mem_cons]

/-- The same for members. -/
theorem distinctMembers_iff {members : List (String × Json)} :
    DistinctMembers members ↔ ∀ m ∈ members, m.2.Distinct := by
  induction members with
  | nil => simp only [DistinctMembers, List.not_mem_nil, false_implies, implies_true]
  | cons m rest ih => simp only [DistinctMembers, ih, List.forall_mem_cons]

/-! ### Members by their keys -/

section Members

variable {α : Type} {members : List (String × α)} {key : String} {v : α}

/-- The search fails for the keys that are not there. -/
theorem find?_eq_none_iff :
    find? members key = none ↔ key ∉ members.map Prod.fst := by
  induction members with
  | nil => simp only [find?, List.map_nil, List.not_mem_nil, not_false_eq_true]
  | cons m rest ih =>
      rcases m with ⟨k, u⟩
      rw [find?, List.map_cons, List.mem_cons, not_or]
      by_cases hk : k = key
      · simp only [hk, if_true, reduceCtorEq, not_true_eq_false, false_and]
      · rw [if_neg hk, ih]
        exact (and_iff_right fun he => hk he.symm).symm

/-- What the search finds is there. With keys that occur twice it is the first. -/
theorem mem_of_find? (h : find? members key = some v) : (key, v) ∈ members := by
  induction members with
  | nil => cases h
  | cons m rest ih =>
      rcases m with ⟨k, u⟩
      rw [find?] at h
      split at h
      · rename_i hk
        rw [hk, Option.some.inj h]
        exact List.mem_cons_self
      · exact List.mem_cons_of_mem _ (ih h)

/-- With distinct keys, the search finds all that is there. -/
theorem find?_eq_some_iff (h : (members.map Prod.fst).Nodup) :
    find? members key = some v ↔ (key, v) ∈ members := by
  induction members with
  | nil => simp only [find?, reduceCtorEq, List.not_mem_nil]
  | cons m rest ih =>
      rcases m with ⟨k, u⟩
      rw [List.map_cons, List.nodup_cons] at h
      rw [find?, List.mem_cons]
      by_cases hk : k = key
      · subst hk
        -- The key of the first member occurs no more, so the search may stop.
        have hnot : (k, v) ∉ rest := fun hmem => h.1 (List.mem_map.mpr ⟨_, hmem, rfl⟩)
        rw [if_pos rfl, or_iff_left hnot, Option.some.injEq, Prod.mk.injEq, eq_comm]
        exact (and_iff_right rfl).symm
      · rw [if_neg hk, ih h.2, or_iff_right]
        exact fun he => hk (congrArg Prod.fst he).symm

/-- A new key goes to the end. -/
theorem insertMember_of_not_mem (h : key ∉ members.map Prod.fst) (v : α) :
    insertMember members key v = members ++ [(key, v)] := by
  induction members with
  | nil => rfl
  | cons m rest ih =>
      rcases m with ⟨k, u⟩
      rw [List.map_cons, List.mem_cons, not_or] at h
      rw [insertMember, if_neg fun he => h.1 he.symm, ih h.2, List.cons_append]

/-- A map literal with distinct keys has its entries in the order of writing. -/
theorem foldl_insertMember {taken entries : List (String × α)}
    (h : ((taken ++ entries).map Prod.fst).Nodup) :
    entries.foldl (fun taken e => insertMember taken e.1 e.2) taken = taken ++ entries := by
  induction entries generalizing taken with
  | nil => exact (List.append_nil taken).symm
  | cons e rest ih =>
      -- What has been written so far does not have the key of the next entry.
      have hnot : e.1 ∉ taken.map Prod.fst := fun hmem => by
        rw [List.map_append, List.nodup_append] at h
        exact h.2.2 e.1 hmem e.1 (List.mem_map_of_mem List.mem_cons_self) rfl
      rw [List.append_cons] at h
      rw [List.foldl_cons, insertMember_of_not_mem hnot, ih h, List.append_assoc,
        List.singleton_append]

end Members

/-- Inserting a member into an object keeps its keys distinct. -/
theorem nodup_insertMember {members : List (String × Json)} (h : (members.map Prod.fst).Nodup)
    (key : String) (v : Json) : ((insertMember members key v).map Prod.fst).Nodup := by
  rw [keys_insertMember]
  split
  · exact h
  · rename_i hmem
    refine List.nodup_append.mpr ⟨h, List.pairwise_singleton _ _, fun k hk j hj hkj => ?_⟩
    exact hmem (List.mem_singleton.mp hj ▸ hkj ▸ hk)

/-- Inserting a member without repeated keys leaves the others as they are. -/
theorem distinctMembers_insertMember {members : List (String × Json)}
    (h : DistinctMembers members) (key : String) {v : Json} (hv : v.Distinct) :
    DistinctMembers (insertMember members key v) := by
  induction members with
  | nil => exact ⟨hv, trivial⟩
  | cons m rest ih =>
      rcases m with ⟨k, u⟩
      rw [insertMember]
      split
      · exact ⟨hv, h.2⟩
      · exact ⟨h.1, ih h.2⟩

/-- What every step of the reader keeps: values are distinct, and so are the keys that
    an object has taken so far, since a repeated one replaces the value it had. -/
theorem kept_distinct :
    Reader.Kept (fun _ => Distinct) (fun _ => DistinctItems)
      (fun _ members => (members.map Prod.fst).Nodup ∧ DistinctMembers members) where
  null _ := trivial
  bool _ _ := trivial
  string _ _ := trivial
  number _ := trivial
  nil_items _ := trivial
  cons_items hv ht := ⟨hv, ht⟩
  array {_ taken} ht := by
    rw [distinctItems_iff] at ht
    exact distinctItems_iff.mpr fun v hv => ht v (List.mem_reverse.mp hv)
  nil_members _ := ⟨List.nodup_nil, trivial⟩
  insert_members key hv ht :=
    ⟨nodup_insertMember ht.1 key _, distinctMembers_insertMember ht.2 key hv⟩
  object ht := ht

/-- A document that was read has no key twice. -/
theorem distinct_read {text : String} {v : Json} (h : read text = .ok v) : v.Distinct :=
  kept_distinct.of_read h

end Json

end DartModels
