import DartModels.Proofs.Walk

/-!
# Walks that succeed

What a walk over a value consists of when it does not fail.

The clauses of the walk are nested matches on results, and a proof about a
successful walk would have to dismiss the errors in each of them again. Here
each clause is turned around once: if the walk over an array succeeds then so
did the walk over its elements, and so on down to the root. Along with the parts
come the parts of the journal.

Each part leads from a well-formed table to a well-formed one, and what it
answers with refers to numbers that the latter has given out.

## Main definitions

* `Catalog.ops`: The operations that lead to the classes of a document.

## Theorems

* `leads_observe`, `leads_observeItems`, `leads_observeMembers`,
  `leads_observeRoot`: Where the parts of a walk lead.
* `observe_array_eq_ok`, `observe_object_eq_ok`, `observeItems_cons_eq_ok`,
  `observeMembers_cons_eq_ok`, `observeRoot_eq_ok`: The clauses turned around.
* `Catalog.ofDocument_eq_ok`: How a catalog came about.
-/

namespace DartModels

open ClassTable

namespace Inference

variable {o : Options} {t t' : ClassTable} {hint : String} {depth : Nat} {path : List Step}

/-! ### Where the parts lead -/

/-- A walk that succeeds leads from its table to the next by its journal, and the slot
    it returns is known there. -/
theorem leads_observe (ht : t.WellFormed) {v : Json} {s : Slot}
    (h : observe o t hint depth path v = (.ok s, t')) :
    Leads t (observeOps o t hint depth path v) t' ∧ s.Known t'.entries.size := by
  rcases legal_observeOps o ht hint depth path v with ⟨hl, hk⟩
  exact ⟨ht.leads hl (by rw [run_observeOps, h]), hk s t' h⟩

/-- The same of the elements of an array. -/
theorem leads_observeItems (ht : t.WellFormed) {i : Nat} {items : List Json} {slots : List Slot}
    (h : observeItems o t hint depth path i items = (.ok slots, t')) :
    Leads t (observeItemsOps o t hint depth path i items) t' ∧
      ∀ s ∈ slots, s.Known t'.entries.size := by
  rcases legal_observeItemsOps o ht hint depth path i items with ⟨hl, hk⟩
  exact ⟨ht.leads hl (by rw [run_observeItemsOps, h]), hk slots t' h⟩

/-- The same of the members of an object. -/
theorem leads_observeMembers (ht : t.WellFormed) {members : List (String × Json)}
    {fields : List Field} (h : observeMembers o t depth path members = (.ok fields, t')) :
    Leads t (observeMembersOps o t depth path members) t' ∧
      Field.KnownAll t'.entries.size fields := by
  rcases legal_observeMembersOps o ht depth path members with ⟨hl, hk⟩
  exact ⟨ht.leads hl (by rw [run_observeMembersOps, h]), hk fields t' h⟩

theorem leads_joinElements (ht : t.WellFormed) {slots : List Slot}
    (hks : ∀ s ∈ slots, s.Known t.entries.size) {s : Slot}
    (h : joinElements t slots = (.ok s, t')) : Leads t (t.joinAllOps slots) t' :=
  ht.leads (ht.joinAll hks).2.2 (by rw [run_joinElements, h])

/-- Registering an object is one operation, with all its fields known. -/
theorem leads_registerObject (ht : t.WellFormed) {fields : List Field} {s : Slot}
    (hk : Field.KnownAll t.entries.size fields)
    (h : registerObject t hint fields = (.ok s, t')) :
    Leads t [.register (Identifier.typeName hint fallbackName) fields] t' :=
  ht.leads ⟨hk, fun hp => hp.elim, trivial⟩ (by rw [run_register, h])

/-- So is pinning the root, provided that no other class is the root. -/
theorem leads_registerPinned (ht : t.WellFormed) (name : String) {fields : List Field}
    (hk : Field.KnownAll t.entries.size fields) (hp : t.pinned = none) :
    Leads t [.pin name fields] (t.registerPinned name fields).2 :=
  ht.leads ⟨hk, fun _ => hp, trivial⟩ rfl

/-- Nothing is pinned below the root. -/
theorem pinned_observeMembers (ht : t.WellFormed) {members : List (String × Json)}
    {fields : List Field} (h : observeMembers o t depth path members = (.ok fields, t')) :
    t'.pinned = t.pinned := by
  have hpin := ht.pinned_run (legal_observeMembersOps o ht depth path members).1 fun op hop =>
    (walks_observeMembersOps o t depth path members op hop).not_pins
  rwa [run_observeMembersOps, h] at hpin

/-! ### The clauses turned around -/

/-- A walk that succeeds was not too deep to begin with. -/
theorem le_maxDepth_of_observe_eq_ok {v : Json} {s : Slot}
    (h : observe o t hint depth path v = (.ok s, t')) : ¬ o.maxDepth < depth := by
  intro hd
  rw [observe_tooDeep hd] at h
  cases h

/-- For an array to succeed its elements have to, and their slots are joined. -/
theorem observe_array_eq_ok {items : List Json} {s : Slot}
    (h : observe o t hint depth path (.array items) = (.ok s, t')) : ∃ slots t₁,
      observeItems o t hint (depth + 1) path 0 items = (.ok slots, t₁) ∧
        joinElements t₁ slots = (.ok s, t') ∧
        observeOps o t hint depth path (.array items) =
          observeItemsOps o t hint (depth + 1) path 0 items ++ t₁.joinAllOps slots := by
  have hd := le_maxDepth_of_observe_eq_ok h
  rw [observe.eq_def, if_neg hd] at h
  rw [observeOps.eq_def, if_neg hd]
  simp only at h ⊢
  rcases hr : observeItems o t hint (depth + 1) path 0 items with ⟨e | slots, t₁⟩
  · rw [hr] at h
    cases h
  · rw [hr] at h
    exact ⟨slots, t₁, rfl, h, rfl⟩

/-- For an object to succeed its members have to, and their fields are registered. -/
theorem observe_object_eq_ok {members : List (String × Json)} {s : Slot}
    (h : observe o t hint depth path (.object members) = (.ok s, t')) : ∃ fields t₁,
      observeMembers o t (depth + 1) path members = (.ok fields, t₁) ∧
        registerObject t₁ hint (Field.withNames fields) = (.ok s, t') ∧
        observeOps o t hint depth path (.object members) =
          observeMembersOps o t (depth + 1) path members ++
            [.register (Identifier.typeName hint fallbackName) (Field.withNames fields)] := by
  have hd := le_maxDepth_of_observe_eq_ok h
  rw [observe.eq_def, if_neg hd] at h
  rw [observeOps.eq_def, if_neg hd]
  simp only at h ⊢
  rcases hr : observeMembers o t (depth + 1) path members with ⟨e | fields, t₁⟩
  · rw [hr] at h
    cases h
  · rw [hr] at h
    exact ⟨fields, t₁, rfl, h, rfl⟩

/-- The first element is visited, and with merging switched on so are all. -/
theorem visits_item_iff {i : Nat} :
    ¬ (i ≠ 0 && !o.mergeArrays) = true ↔ o.mergeArrays = true ∨ i = 0 := by
  simp [or_comm, imp_iff_not_or]

/-- The first of several elements, and the others in the table it leaves. -/
theorem observeItems_cons_eq_ok {i : Nat} (hi : o.mergeArrays = true ∨ i = 0) {v : Json}
    {rest : List Json} {slots : List Slot}
    (h : observeItems o t hint depth path i (v :: rest) = (.ok slots, t')) : ∃ slot slots' t₁,
      slots = slot :: slots' ∧ observe o t hint depth (.index i :: path) v = (.ok slot, t₁) ∧
        observeItems o t₁ hint depth path (i + 1) rest = (.ok slots', t') ∧
        observeItemsOps o t hint depth path i (v :: rest) =
          observeOps o t hint depth (.index i :: path) v ++
            observeItemsOps o t₁ hint depth path (i + 1) rest := by
  rw [observeItems.eq_def] at h
  rw [observeItemsOps.eq_def]
  simp only [if_neg (visits_item_iff.mpr hi)] at h ⊢
  -- An error in the first element or behind it would be the result.
  rcases hr : observe o t hint depth (.index i :: path) v with ⟨e | slot, t₁⟩
  · rw [hr] at h
    cases h
  · rw [hr] at h
    simp only at h
    rcases hr' : observeItems o t₁ hint depth path (i + 1) rest with ⟨e | slots', t₂⟩
    · rw [hr'] at h
      cases h
    · rw [hr'] at h
      cases h
      exact ⟨slot, slots', t₁, rfl, rfl, hr', rfl⟩

/-- The first of several members, and the others in the table it leaves. -/
theorem observeMembers_cons_eq_ok {key : String} {v : Json} {rest : List (String × Json)}
    {fields : List Field}
    (h : observeMembers o t depth path ((key, v) :: rest) = (.ok fields, t')) :
    ∃ slot fields' t₁, fields = ⟨"", key, slot⟩ :: fields' ∧
      observe o t key depth (.key key :: path) v = (.ok slot, t₁) ∧
        observeMembers o t₁ depth path rest = (.ok fields', t') ∧
        observeMembersOps o t depth path ((key, v) :: rest) =
          observeOps o t key depth (.key key :: path) v ++
            observeMembersOps o t₁ depth path rest := by
  rw [observeMembers.eq_def] at h
  rw [observeMembersOps.eq_def]
  simp only at h ⊢
  -- An error in the first member or behind it would be the result.
  rcases hr : observe o t key depth (.key key :: path) v with ⟨e | slot, t₁⟩
  · rw [hr] at h
    cases h
  · rw [hr] at h
    simp only at h
    rcases hr' : observeMembers o t₁ depth path rest with ⟨e | fields', t₂⟩
    · rw [hr'] at h
      cases h
    · rw [hr'] at h
      cases h
      exact ⟨slot, fields', t₁, rfl, rfl, hr', rfl⟩

/-- The fields of an object have its keys. -/
theorem keys_observeMembers {o : Options} {depth : Nat} {path : List Step}
    {members : List (String × Json)} {fields : List Field}
    (heq : observeMembers o t depth path members = (.ok fields, t')) :
    fields.map Field.key = members.map Prod.fst := by
  induction members generalizing t fields with
  | nil =>
      rw [observeMembers.eq_def] at heq
      cases heq
      rfl
  | cons member rest ih =>
      rcases member with ⟨key, v⟩
      rcases observeMembers_cons_eq_ok heq with ⟨slot, fields', t₁, rfl, _, hrest, _⟩
      rw [List.map_cons, List.map_cons, ih hrest]

/-- A document that succeeds is an object. Its name is kept first, and its fields are
    pinned last. -/
theorem observeRoot_eq_ok {name : String} {v : Json} {root : ClassId}
    (h : observeRoot o t name v = (.ok root, t')) : ∃ members fields t₁,
      v = .object members ∧
        observeMembers o (t.reserveName name) 1 [] members = (.ok fields, t₁) ∧
        t₁.registerPinned name (Field.withNames fields) = (root, t') ∧
        observeRootOps o t name v = .reserve name ::
          (observeMembersOps o (t.reserveName name) 1 [] members ++
            [.pin name (Field.withNames fields)]) := by
  cases v with
  -- Only an object may be the root, whatever else fails.
  | null | bool _ | number _ | string _ | array _ => cases h
  | object members =>
      simp only [observeRoot] at h
      simp only [observeRootOps]
      rcases hr : observeMembers o (t.reserveName name) 1 [] members with ⟨e | fields, t₁⟩
      · rw [hr] at h
        cases h
      · rw [hr] at h
        cases h
        exact ⟨members, fields, t₁, rfl, hr, rfl, rfl⟩

/-- The journal of a whole document leads from the empty table to the one it leaves. -/
theorem leads_observeRoot {name : String} {v : Json} {root : ClassId}
    (h : observeRoot o .empty name v = (.ok root, t)) :
    Leads .empty (observeRootOps o .empty name v) t :=
  WellFormed.empty.leads (legal_observeRootOps o WellFormed.empty rfl name v)
    (by rw [run_observeRootOps, h])

end Inference

/-- The operations that lead to the classes of a document. -/
def Catalog.ops (o : Options) (name : String) (v : Json) : List Operation :=
  Inference.observeRootOps o .empty name v ++ [.fold]

/-- A catalog is what the walk leaves behind, folded. -/
theorem Catalog.ofDocument_eq_ok {o : Options} {name : String} {v : Json} {catalog : Catalog}
    (h : Catalog.ofDocument o name v = .ok catalog) : ∃ root t,
      Inference.observeRoot o .empty name v = (.ok root, t) ∧
        Leads .empty (Inference.observeRootOps o .empty name v) t ∧
        Leads t [.fold] catalog.table ∧ catalog = .ofTable t root := by
  rcases hr : Inference.observeRoot o .empty name v with ⟨e | root, t⟩
  · simp only [Catalog.ofDocument, hr, reduceCtorEq] at h
  · simp only [Catalog.ofDocument, hr, Except.ok.injEq] at h
    have hl := Inference.leads_observeRoot hr
    rw [← h]
    exact ⟨root, t, rfl, hl, hl.wellFormed.leads_fold, rfl⟩

/-- The table of a catalog is the one that its operations lead to. -/
theorem Catalog.run_ops {o : Options} {name : String} {v : Json} {catalog : Catalog}
    (h : Catalog.ofDocument o name v = .ok catalog) :
    ClassTable.empty.run (ops o name v) = catalog.table := by
  rcases ofDocument_eq_ok h with ⟨_, _, _, hl, hf, _⟩
  exact (hl.append WellFormed.empty hf).run

namespace Inference

/-- A document in which two elements become one class, and a third object is
    found to be of that class when the catalog is made. -/
def elementsDocument : Json :=
  .object [("as", .array [.object [("x", .bool true)], .object []]), ("b", .object [("x", .null)])]

/-- This document has a catalog. -/
theorem ofDocument_elementsDocument : ∃ catalog,
    Catalog.ofDocument {} "List" elementsDocument = .ok catalog := by
  have hok : (Catalog.ofDocument {} "List" elementsDocument).isOk = true := by decide +kernel
  rcases hc : Catalog.ofDocument {} "List" elementsDocument with e | catalog
  · rw [hc] at hok
    cases hok
  · exact ⟨catalog, rfl⟩

end Inference

end DartModels
