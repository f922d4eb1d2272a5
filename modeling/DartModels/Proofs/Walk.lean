import DartModels.Proofs.Runs
import DartModels.Shape.Catalog

/-!
# The walk as a run

The walk over a document, as the sequence of operations that it asks of the
class table.

Inference hands the table from call to call and stops at the first error, so its
states lie inside a recursion over the document. The journal brings them out:
the tables that the walk goes through are those after the prefixes of a list,
and what holds of every legal sequence holds of them. The journal follows the
walk clause by clause, since how it goes on depends on the table so far.

## Main definitions

* `Inference.observeOps`, `Inference.observeRootOps`: The journals.
* `Visits`: What holds of all operations of a walk.
* `Walks`: The operations that occur below the root.

## Theorems

* `run_observeRootOps`: The journal leads where the walk leads.
* `Visits.observeOps`: To know a walk it is enough to know its steps.
* `legal_observeRootOps`: It uses only numbers that were given out, and pins
  once.
-/

namespace DartModels

namespace Inference

mutual

/-- The operations of the walk over a value. -/
def observeOps (o : Options) (t : ClassTable) (hint : String) (depth : Nat) (path : List Step)
    (v : Json) : List Operation :=
  if o.maxDepth < depth then []
  else
    match v with
    | .array items =>
        observeItemsOps o t hint (depth + 1) path 0 items ++
          match observeItems o t hint (depth + 1) path 0 items with
          | (.ok slots, t) => t.joinAllOps slots
          | (.error _, _) => []
    | .object members =>
        observeMembersOps o t (depth + 1) path members ++
          match observeMembers o t (depth + 1) path members with
          | (.ok fields, _) =>
              [.register (Identifier.typeName hint fallbackName) (Field.withNames fields)]
          | (.error _, _) => []
    | _ => []

/-- The operations of the walk over the elements of an array. -/
def observeItemsOps (o : Options) (t : ClassTable) (hint : String) (depth : Nat)
    (path : List Step) (i : Nat) : List Json → List Operation
  | [] => []
  | v :: rest =>
      if i ≠ 0 && !o.mergeArrays then []
      else
        observeOps o t hint depth (.index i :: path) v ++
          match observe o t hint depth (.index i :: path) v with
          | (.error _, _) => []
          | (.ok _, t) => observeItemsOps o t hint depth path (i + 1) rest

/-- The operations of the walk over the members of an object. -/
def observeMembersOps (o : Options) (t : ClassTable) (depth : Nat) (path : List Step) :
    List (String × Json) → List Operation
  | [] => []
  | (key, v) :: rest =>
      observeOps o t key depth (.key key :: path) v ++
        match observe o t key depth (.key key :: path) v with
        | (.error _, _) => []
        | (.ok _, t) => observeMembersOps o t depth path rest

end

/-- The operations of the walk over a whole document. -/
def observeRootOps (o : Options) (t : ClassTable) (name : String) : Json → List Operation
  | .object members =>
      .reserve name ::
        (observeMembersOps o (t.reserveName name) 1 [] members ++
          match observeMembers o (t.reserveName name) 1 [] members with
          | (.ok fields, _) => [.pin name (Field.withNames fields)]
          | (.error _, _) => [])
  | _ => []

/-! ### Playing the journal back -/

/-- Registering an object is one operation, which leaves the table alone if no name is
    free. -/
theorem run_register (t : ClassTable) (hint : String) (fields : List Field) :
    t.run [.register (Identifier.typeName hint fallbackName) fields] =
      (registerObject t hint fields).2 := by
  simp only [ClassTable.run_cons, ClassTable.run_nil, Operation.apply, registerObject]
  rcases t.registerOrReuse (Identifier.typeName hint fallbackName) fields with e | ⟨id, t'⟩ <;> rfl

/-- Joining the slots of the elements is what the journal of joining does. -/
theorem run_joinElements (t : ClassTable) (slots : List Slot) :
    t.run (t.joinAllOps slots) = (joinElements t slots).2 := by
  rw [ClassTable.run_joinAllOps, joinElements]
  rcases t.joinAll slots with ⟨_ | item, t'⟩ <;> rfl

mutual

/-- The journal of a walk leads where the walk leads, also if the walk fails. -/
theorem run_observeOps (o : Options) (t : ClassTable) (hint : String) (depth : Nat)
    (path : List Step) (v : Json) :
    t.run (observeOps o t hint depth path v) = (observe o t hint depth path v).2 := by
  by_cases hd : o.maxDepth < depth
  · -- Beyond the limit neither the walk nor its journal does anything.
    rw [observe_tooDeep hd, observeOps.eq_def, if_pos hd, ClassTable.run_nil]
  · cases v with
    | null | bool _ | number _ | string _ =>
        rw [observeOps.eq_def, observe.eq_def, if_neg hd, if_neg hd, ClassTable.run_nil]
    | array items =>
        rw [observeOps.eq_def, observe.eq_def, if_neg hd, if_neg hd]
        simp only [ClassTable.run_append, run_observeItemsOps o t hint (depth + 1) path 0 items]
        rcases observeItems o t hint (depth + 1) path 0 items with ⟨e | slots, t'⟩
        · rfl
        · exact run_joinElements t' slots
    | object members =>
        rw [observeOps.eq_def, observe.eq_def, if_neg hd, if_neg hd]
        simp only [ClassTable.run_append, run_observeMembersOps o t (depth + 1) path members]
        rcases observeMembers o t (depth + 1) path members with ⟨e | fields, t'⟩
        · rfl
        · exact run_register t' hint (Field.withNames fields)

/-- The same of elements. Without merging of arrays the journal stops after the first,
    as the walk does. -/
theorem run_observeItemsOps (o : Options) (t : ClassTable) (hint : String) (depth : Nat)
    (path : List Step) (i : Nat) (items : List Json) :
    t.run (observeItemsOps o t hint depth path i items) =
      (observeItems o t hint depth path i items).2 := by
  cases items with
  | nil => rfl
  | cons v rest =>
      rw [observeItemsOps.eq_def, observeItems.eq_def]
      by_cases hi : (i ≠ 0 && !o.mergeArrays) = true
      · simp only [if_pos hi, ClassTable.run_nil]
      · simp only [if_neg hi, ClassTable.run_append, run_observeOps o t hint depth _ v]
        rcases observe o t hint depth (.index i :: path) v with ⟨e | slot, t'⟩
        · rfl
        · simp only [run_observeItemsOps o t' hint depth path (i + 1) rest]
          rcases observeItems o t' hint depth path (i + 1) rest with ⟨e | slots, t''⟩ <;> rfl

/-- The same of members. -/
theorem run_observeMembersOps (o : Options) (t : ClassTable) (depth : Nat) (path : List Step)
    (members : List (String × Json)) :
    t.run (observeMembersOps o t depth path members) =
      (observeMembers o t depth path members).2 := by
  cases members with
  | nil => rfl
  | cons member rest =>
      rcases member with ⟨key, v⟩
      rw [observeMembersOps.eq_def, observeMembers.eq_def]
      simp only [ClassTable.run_append, run_observeOps o t key depth _ v]
      rcases observe o t key depth (.key key :: path) v with ⟨e | slot, t'⟩
      · rfl
      · simp only [run_observeMembersOps o t' depth path rest]
        rcases observeMembers o t' depth path rest with ⟨e | fields, t''⟩ <;> rfl

end

/-- The journal of a whole document leads where the document leads. -/
theorem run_observeRootOps (o : Options) (t : ClassTable) (name : String) (v : Json) :
    t.run (observeRootOps o t name v) = (observeRoot o t name v).2 := by
  cases v with
  | null | bool _ | number _ | string _ | array _ => rfl
  | object members =>
      simp only [observeRootOps, observeRoot, ClassTable.run_cons, ClassTable.run_append,
        Operation.apply, run_observeMembersOps]
      rcases observeMembers o (t.reserveName name) 1 [] members with ⟨e | fields, t'⟩ <;> rfl

/-! ### The journal is legal -/

/-- The slot of an array is known, also that of an empty one, which refers to nothing. -/
theorem known_joinElements {t : ClassTable} (h : t.WellFormed) {slots : List Slot}
    (hs : ∀ s ∈ slots, s.Known t.entries.size) {s : Slot} {t' : ClassTable}
    (heq : joinElements t slots = (.ok s, t')) : s.Known t'.entries.size := by
  rcases h.joinAll hs with ⟨hc, hk, _⟩
  have hsize := hc.entries_size
  rw [joinElements] at heq
  rcases hj : t.joinAll slots with ⟨_ | item, t''⟩
  · rw [hj] at heq
    cases heq
    exact fun id hid => absurd hid List.not_mem_nil
  · rw [hj] at heq hk hsize
    cases heq
    exact hsize ▸ hk item rfl

/-- The slot of an object names a class that has its fields: one that is there,
    or one that is added. -/
theorem registerObject_eq_ok {t t' : ClassTable} {hint : String} {fields : List Field} {s : Slot}
    (heq : registerObject t hint fields = (.ok s, t')) :
    (∃ id, t.lookup? (t.canonical fields) = some id ∧ s = .required (.ref id) ∧ t' = t) ∨
      ∃ name, t.lookup? (t.canonical fields) = none ∧
        s = .required (.ref t.entries.size) ∧ t' = (t.push name (t.canonical fields)).2 := by
  unfold registerObject at heq
  rcases t.registerOrReuse_cases (Identifier.typeName hint fallbackName) fields with
    ⟨id, hr, hl⟩ | ⟨name, hr, hl, _⟩ | hr
  · rw [hr, Prod.mk.injEq, Except.ok.injEq] at heq
    exact Or.inl ⟨id, hl, heq.1.symm, heq.2.symm⟩
  · rw [hr, Prod.mk.injEq, Except.ok.injEq] at heq
    exact Or.inr ⟨name, hl, heq.1.symm, heq.2.symm⟩
  · rw [hr] at heq
    cases heq

/-- The slot of an object is known to the table that has its class. -/
theorem known_registerObject {t t' : ClassTable} (h : t.WellFormed) {hint : String}
    {fields : List Field} {s : Slot} (heq : registerObject t hint fields = (.ok s, t')) :
    s.Known t'.entries.size := by
  intro k hk
  -- The class that was found is live, and the one that is added is the last.
  rcases registerObject_eq_ok heq with ⟨id, hl, rfl, rfl⟩ | ⟨name, _, rfl, rfl⟩
  · rcases h.linked.lookup?_eq_some hl with ⟨c, hc, _⟩
    rw [List.mem_singleton.mp hk]
    exact ClassTable.lt_of_at? hc
  · rw [List.mem_singleton.mp hk, ClassTable.entries_size_push]
    exact Nat.lt_succ_self _

/-- Names of fields do not bear on what their slots refer to. -/
theorem knownAll_withNames {n : Nat} {fields : List Field} (h : Field.KnownAll n fields) :
    Field.KnownAll n (Field.withNames fields) := by
  intro f hf
  rcases Field.mem_withNames hf with ⟨g, hg, _, hslot⟩
  rw [hslot]
  exact h g hg

mutual

/-- The journal of a walk is legal, and the slot that comes out of it is known. The two
    go together: what a later operation refers to came out of an earlier one. -/
theorem legal_observeOps (o : Options) {t : ClassTable} (h : t.WellFormed) (hint : String)
    (depth : Nat) (path : List Step) (v : Json) :
    t.Legal (observeOps o t hint depth path v) ∧
      ∀ s t', observe o t hint depth path v = (.ok s, t') → s.Known t'.entries.size := by
  -- Beyond the limit nothing is done, and nothing need be known.
  by_cases hd : o.maxDepth < depth
  · rw [observe_tooDeep hd, observeOps.eq_def, if_pos hd]
    exact ⟨trivial, fun s t' heq => by cases heq⟩
  · rw [observeOps.eq_def, observe.eq_def, if_neg hd, if_neg hd]
    cases v with
    | null | bool _ | number _ | string _ =>
        refine ⟨trivial, fun s t' heq => ?_⟩
        cases heq
        exact fun id hid => absurd hid List.not_mem_nil
    | array items =>
        simp only
        -- The elements come first, and their slots are known to the table that they lead
        -- to.
        rcases legal_observeItemsOps o h hint (depth + 1) path 0 items with ⟨hl, hk⟩
        have hw := (h.run hl).1
        rw [run_observeItemsOps] at hw
        rw [ClassTable.legal_append, run_observeItemsOps]
        rcases hr : observeItems o t hint (depth + 1) path 0 items with ⟨e | slots, t'⟩
        · exact ⟨⟨hl, trivial⟩, fun s t' heq => by cases heq⟩
        · rw [hr] at hw
          exact ⟨⟨hl, (hw.joinAll (hk slots t' hr)).2.2⟩,
            fun s t'' heq => known_joinElements hw (hk slots t' hr) heq⟩
    | object members =>
        simp only
        -- And so are those of the members, so their object can be registered.
        rcases legal_observeMembersOps o h (depth + 1) path members with ⟨hl, hk⟩
        have hw := (h.run hl).1
        rw [run_observeMembersOps] at hw
        rw [ClassTable.legal_append, run_observeMembersOps]
        rcases hr : observeMembers o t (depth + 1) path members with ⟨e | fields, t'⟩
        · exact ⟨⟨hl, trivial⟩, fun s t' heq => by cases heq⟩
        · rw [hr] at hw
          exact ⟨⟨hl, knownAll_withNames (hk fields t' hr), fun hp => hp.elim, trivial⟩,
            fun s t'' heq => known_registerObject hw heq⟩

/-- The same of the elements of an array and their slots. -/
theorem legal_observeItemsOps (o : Options) {t : ClassTable} (h : t.WellFormed) (hint : String)
    (depth : Nat) (path : List Step) (i : Nat) (items : List Json) :
    t.Legal (observeItemsOps o t hint depth path i items) ∧
      ∀ slots t', observeItems o t hint depth path i items = (.ok slots, t') →
        ∀ s ∈ slots, s.Known t'.entries.size := by
  cases items with
  | nil =>
      refine ⟨trivial, fun slots t' heq => ?_⟩
      cases heq
      exact fun s hs => absurd hs List.not_mem_nil
  | cons v rest =>
      rw [observeItemsOps.eq_def, observeItems.eq_def]
      by_cases hi : (i ≠ 0 && !o.mergeArrays) = true
      · simp only [if_pos hi]
        refine ⟨trivial, fun slots t' heq => ?_⟩
        cases heq
        exact fun s hs => absurd hs List.not_mem_nil
      · simp only [if_neg hi]
        rcases legal_observeOps o h hint depth (.index i :: path) v with ⟨hl, hk⟩
        have hw := (h.run hl).1
        rw [run_observeOps] at hw
        rw [ClassTable.legal_append, run_observeOps]
        rcases hr : observe o t hint depth (.index i :: path) v with ⟨e | slot, t₁⟩
        · exact ⟨⟨hl, trivial⟩, fun slots t' heq => by cases heq⟩
        · rw [hr] at hw
          simp only
          rcases legal_observeItemsOps o hw hint depth path (i + 1) rest with ⟨hl', hk'⟩
          -- The first slot is known to the table after its own element, and so to later ones.
          have he := (hw.run hl').2
          rw [run_observeItemsOps] at he
          refine ⟨⟨hl, hl'⟩, fun slots t' heq => ?_⟩
          rcases hr' : observeItems o t₁ hint depth path (i + 1) rest with ⟨e | slots', t₂⟩
          · rw [hr'] at heq
            cases heq
          · rw [hr'] at heq he
            cases heq
            intro s hs
            rcases List.mem_cons.mp hs with rfl | hs
            · exact fun id hid => Nat.lt_of_lt_of_le (hk _ t₁ hr id hid) he.size_le
            · exact hk' slots' t' hr' s hs

/-- The same of the members of an object and their fields. -/
theorem legal_observeMembersOps (o : Options) {t : ClassTable} (h : t.WellFormed) (depth : Nat)
    (path : List Step) (members : List (String × Json)) :
    t.Legal (observeMembersOps o t depth path members) ∧
      ∀ fields t', observeMembers o t depth path members = (.ok fields, t') →
        Field.KnownAll t'.entries.size fields := by
  cases members with
  | nil =>
      refine ⟨trivial, fun fields t' heq => ?_⟩
      cases heq
      exact fun f hf => absurd hf List.not_mem_nil
  | cons member rest =>
      rcases member with ⟨key, v⟩
      rw [observeMembersOps.eq_def, observeMembers.eq_def]
      simp only
      rcases legal_observeOps o h key depth (.key key :: path) v with ⟨hl, hk⟩
      have hw := (h.run hl).1
      rw [run_observeOps] at hw
      rw [ClassTable.legal_append, run_observeOps]
      rcases hr : observe o t key depth (.key key :: path) v with ⟨e | slot, t₁⟩
      · exact ⟨⟨hl, trivial⟩, fun fields t' heq => by cases heq⟩
      · rw [hr] at hw
        simp only
        rcases legal_observeMembersOps o hw depth path rest with ⟨hl', hk'⟩
        have he := (hw.run hl').2
        rw [run_observeMembersOps] at he
        refine ⟨⟨hl, hl'⟩, fun fields t' heq => ?_⟩
        rcases hr' : observeMembers o t₁ depth path rest with ⟨e | fields', t₂⟩
        · rw [hr'] at heq
          cases heq
        · rw [hr'] at heq he
          cases heq
          intro f hf
          rcases List.mem_cons.mp hf with rfl | hf
          · -- Numbers are never taken back, so the first field is known to the later table.
            exact fun id hid => Nat.lt_of_lt_of_le (hk slot t₁ hr id hid) he.size_le
          · exact hk' fields' t' hr' f hf

end

/-! ### What the walk asks for -/

/-- `Q` holds of all that a walk asks for while it visits values with `P`: the
    parts of a value have `P` again, and `Q` holds of what is done with them. -/
structure Visits (o : Options) (P : Json → Prop) (Q : Operation → Prop) : Prop where
  items : ∀ items, P (.array items) → ∀ v ∈ items, P v
  members : ∀ members, P (.object members) → ∀ m ∈ members, P m.2
  merges : ∀ op : Operation, op.Merges → Q op
  registers : ∀ t hint depth path members fields t', P (.object members) →
    observeMembers o t depth path members = (.ok fields, t') →
      Q (.register (Identifier.typeName hint fallbackName) (Field.withNames fields))

section Visits

variable {o : Options} {P : Json → Prop} {Q : Operation → Prop}

mutual

/-- What a walk over a value with `P` asks for has `Q`. -/
theorem Visits.observeOps (h : Visits o P Q) (t : ClassTable) (hint : String) (depth : Nat)
    (path : List Step) (v : Json) (hv : P v) :
    ∀ op ∈ observeOps o t hint depth path v, Q op := by
  intro op hop
  rw [Inference.observeOps.eq_def] at hop
  split at hop
  · exact absurd hop List.not_mem_nil
  · cases v with
    | null | bool _ | number _ | string _ => exact absurd hop List.not_mem_nil
    | array items =>
        -- An operation is one of the parts, or the one that the parts are for.
        rcases List.mem_append.mp hop with hop | hop
        · exact h.observeItemsOps t hint (depth + 1) path 0 items (h.items items hv) op hop
        · split at hop
          · exact h.merges op (ClassTable.merges_joinAllOps _ _ op hop)
          · exact absurd hop List.not_mem_nil
    | object members =>
        rcases List.mem_append.mp hop with hop | hop
        · exact h.observeMembersOps t (depth + 1) path members (h.members members hv) op hop
        · split at hop
          · rename_i hmembers
            rw [List.mem_singleton.mp hop]
            exact h.registers _ hint _ _ members _ _ hv hmembers
          · exact absurd hop List.not_mem_nil

/-- The same of the elements of an array. -/
theorem Visits.observeItemsOps (h : Visits o P Q) (t : ClassTable) (hint : String) (depth : Nat)
    (path : List Step) (i : Nat) (items : List Json) (hv : ∀ v ∈ items, P v) :
    ∀ op ∈ observeItemsOps o t hint depth path i items, Q op := by
  cases items with
  | nil => exact fun op hop => absurd hop List.not_mem_nil
  | cons v rest =>
      rw [List.forall_mem_cons] at hv
      intro op hop
      rw [Inference.observeItemsOps.eq_def] at hop
      simp only at hop
      split at hop
      · exact absurd hop List.not_mem_nil
      · rcases List.mem_append.mp hop with hop | hop
        · exact h.observeOps t hint depth _ v hv.1 op hop
        · split at hop
          · exact absurd hop List.not_mem_nil
          · exact h.observeItemsOps _ hint depth path (i + 1) rest hv.2 op hop

/-- The same of the members of an object. -/
theorem Visits.observeMembersOps (h : Visits o P Q) (t : ClassTable) (depth : Nat)
    (path : List Step) (members : List (String × Json)) (hv : ∀ m ∈ members, P m.2) :
    ∀ op ∈ observeMembersOps o t depth path members, Q op := by
  cases members with
  | nil => exact fun op hop => absurd hop List.not_mem_nil
  | cons member rest =>
      rcases member with ⟨key, v⟩
      rw [List.forall_mem_cons] at hv
      intro op hop
      rw [Inference.observeMembersOps.eq_def] at hop
      rcases List.mem_append.mp hop with hop | hop
      · exact h.observeOps t key depth _ v hv.1 op hop
      · split at hop
        · exact absurd hop List.not_mem_nil
        · exact h.observeMembersOps _ depth path rest hv.2 op hop

end

end Visits

/-- Whether an operation is one that the walk below the root can ask for. -/
def Walks (op : Operation) : Prop :=
  op.Merges ∨ ∃ hint fields, op = .register (Identifier.typeName hint fallbackName) fields

/-- Nothing below the root becomes the root. -/
theorem Walks.not_pins {op : Operation} (h : Walks op) : ¬ op.Pins := by
  rcases h with h | ⟨hint, fields, rfl⟩
  · cases op with
    | pin name fields => exact fun _ => h
    | _ => exact fun hp => hp
  · exact fun hp => hp

/-- Every value is visited alike, as a walk asks for nothing but merges and
    registrations. -/
theorem visits_walks (o : Options) : Visits o (fun _ => True) Walks where
  items _ _ _ _ := trivial
  members _ _ _ _ := trivial
  merges _ h := Or.inl h
  registers _ hint _ _ _ _ _ _ _ := Or.inr ⟨hint, _, rfl⟩

/-- What the members of an object ask for. -/
theorem walks_observeMembersOps (o : Options) (t : ClassTable) (depth : Nat) (path : List Step)
    (members : List (String × Json)) :
    ∀ op ∈ observeMembersOps o t depth path members, Walks op :=
  (visits_walks o).observeMembersOps t depth path members fun _ _ => trivial

/-- The root is pinned last, when nothing else is. -/
theorem legal_observeRootOps (o : Options) {t : ClassTable} (h : t.WellFormed)
    (hp : t.pinned = none) (name : String) (v : Json) : t.Legal (observeRootOps o t name v) := by
  cases v with
  | null | bool _ | number _ | string _ | array _ => exact trivial
  | object members =>
      have hw := h.rewrites_self (ClassTable.rewrites_reserveName t name)
      rcases legal_observeMembersOps o hw 1 [] members with ⟨hl, hk⟩
      -- Below the root nothing is pinned, so the root may be.
      have hpin := hw.pinned_run hl fun op hop =>
        (walks_observeMembersOps o _ 1 [] members op hop).not_pins
      refine ⟨trivial, fun hp => hp.elim, ?_⟩
      simp only [Operation.apply]
      rw [ClassTable.legal_append, run_observeMembersOps]
      rw [run_observeMembersOps] at hpin
      rcases hr : observeMembers o (t.reserveName name) 1 [] members with ⟨e | fields, t'⟩
      · exact ⟨hl, trivial⟩
      · rw [hr] at hpin
        exact ⟨hl, knownAll_withNames (hk fields t' hr), fun _ => hpin.trans hp, trivial⟩

end Inference

end DartModels
