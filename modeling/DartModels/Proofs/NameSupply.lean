import DartModels.Proofs.FieldNames
import DartModels.Proofs.Names

/-!
# The supply of class names

A document of moderate size never runs out of names for its classes.

A class that finds its name taken is numbered, and there is an end to the
numbers. To get there all candidates have to be taken at once. A name is taken
for one of three reasons. The core types take a base and none of its variants,
because the name of no type ends in a digit. The root takes one name. Everything
else is the name of a class that is live at the moment, and this is where it
matters that names are given back: the objects of a long array are all
registered before the first two of them are merged, but whatever is merged
afterwards frees its name. So the candidates outnumber the names that are taken
until there are two classes less than candidates, and there are never more
classes than objects have been visited.

## Main definitions

* `Json.objects`, `Json.objectsBelow`: How many objects a document has, with and
  without the root.
* `Supplied`: A stretch of the walk in which all classes find names.

## Theorems

* `Identifier.exists_firstFree_of_lt`: Too few names cannot take all candidates.
* `ClassTable.Named.exists_firstFree`: In a table with few classes every base has
  a free name.
* `Inference.supplied_observe`: A walk over few objects finds all names.
* `Inference.observeRoot_ne_namesExhausted`: So does a document of moderate size.
-/

namespace DartModels

/-! ### Objects of a document -/

namespace Json

mutual

/-- The number of objects in a document, at any depth. -/
def objects : Json → Nat
  | .array items => objectsOfItems items
  | .object members => objectsOfMembers members + 1
  | _ => 0

/-- The number of objects in the elements of an array. -/
def objectsOfItems : List Json → Nat
  | [] => 0
  | v :: rest => objects v + objectsOfItems rest

/-- The number of objects in the members of an object, which does not count itself. -/
def objectsOfMembers : List (String × Json) → Nat
  | [] => 0
  | (_, v) :: rest => objects v + objectsOfMembers rest

end

/-- The number of objects in a document, not counting the document itself. -/
def objectsBelow : Json → Nat
  | .object members => objectsOfMembers members
  | v => v.objects

end Json

/-! ### Free names -/

namespace Identifier

/-- If the candidates that are taken are among fewer names than there are
    candidates, one candidate is free. -/
theorem exists_firstFree_of_lt {taken : String → Bool} {base : String} {attempts : Nat}
    {names : List String}
    (hsub : ∀ name ∈ candidates base attempts, taken name = true → name ∈ names)
    (hlt : names.length < attempts) : ∃ name, firstFree taken base attempts = some name := by
  cases hfree : firstFree taken base attempts with
  | some name => exact ⟨name, rfl⟩
  | none =>
      have hall : candidates base attempts ⊆ names := fun name hname =>
        hsub name hname (firstFree_eq_none_iff.mp hfree name hname)
      -- Otherwise all candidates, which are distinct, are among fewer names.
      have hle := (List.subperm_of_subset (nodup_candidates base attempts) hall).length_le
      rw [show attempts = attempts - 1 + 1 by omega, length_candidates] at hle
      omega

/-- No core type ends in a number. -/
theorem variant_not_mem_coreTypes (base : String) (n : Nat) : variant base n ∉ coreTypes := by
  intro hmem
  have hres := isReserved_variant base n
  rw [isReserved, Bool.or_eq_false_iff] at hres
  rw [List.contains_iff_mem.mpr hmem] at hres
  exact Bool.noConfusion hres.2

end Identifier

namespace ClassTable

variable {t t' : ClassTable} {root : String}

/-- The candidates for a base that are taken are the base itself, the name of the
    root, and names of live classes. -/
theorem Named.mem_of_taken (h : Named root t) {base name : String} {attempts : Nat}
    (hname : name ∈ Identifier.candidates base attempts) (ht : name ∈ t.names) :
    name ∈ base :: root :: t.classes.map ClassDef.name := by
  rcases List.mem_cons.mp hname with rfl | hvariant
  · exact List.mem_cons_self
  · rcases List.mem_map.mp hvariant with ⟨n, _, rfl⟩
    refine List.mem_cons_of_mem base (List.mem_cons.mpr ?_)
    rcases (h.mem_names _).mp ht with hcore | hroot | ⟨i, c, hc, hcn⟩
    · exact absurd hcore (Identifier.variant_not_mem_coreTypes base n)
    · exact Or.inl hroot
    · exact Or.inr (List.mem_map.mpr ⟨c, mem_classes_iff.mpr ⟨i, hc⟩, hcn⟩)

/-- With two candidates to spare for the base and the root, one is free. -/
theorem Named.exists_firstFree (h : Named root t) (hsize : t.size + 2 < maxNameAttempts)
    (base : String) :
    ∃ name, Identifier.firstFree t.names.contains base maxNameAttempts = some name := by
  refine Identifier.exists_firstFree_of_lt
    (fun name hname ht => h.mem_of_taken hname (Std.TreeSet.mem_iff_contains.mpr ht)) ?_
  rw [List.length_cons, List.length_cons, List.length_map]
  exact hsize

end ClassTable

namespace Inference

open ClassTable

variable {α β : Type} {root : String} {o : Options} {t t' : ClassTable} {n m : Nat}

/-! ### The walk -/

/-- A walk that visits at most `n` objects finds a name for each of them, and
    leaves at most `n` classes more than it found. -/
structure Supplied (root : String) (t : ClassTable) (n : Nat) (w : Walk α) : Prop where
  wellFormed : w.2.WellFormed
  named : Named root w.2
  size_le : w.2.size ≤ t.size + n
  found : ∀ base attempts, w.1 ≠ .error (.namesExhausted base attempts)

/-- A walk that does with few classes does with more. -/
theorem Supplied.mono {w : Walk α} (h : Supplied root t n w) (hnm : n ≤ m) :
    Supplied root t m w where
  wellFormed := h.wellFormed
  named := h.named
  size_le := Nat.le_trans h.size_le (Nat.add_le_add_left hnm _)
  found := h.found

/-- A walk that goes wrong inside a value goes wrong for the value. -/
theorem Supplied.error {e : InferenceError} (h : Supplied root t n ((.error e, t') : Walk α)) :
    Supplied root t n ((.error e, t') : Walk β) where
  wellFormed := h.wellFormed
  named := h.named
  size_le := h.size_le
  found base attempts he := h.found base attempts (congrArg Except.error (Except.error.inj he))

/-- What a walk returns does not matter for the names. -/
theorem Supplied.ok {a : α} (h : Supplied root t n ((.ok a, t') : Walk α)) (b : β) :
    Supplied root t n ((.ok b, t') : Walk β) where
  wellFormed := h.wellFormed
  named := h.named
  size_le := h.size_le
  found base attempts he := by cases he

/-- A walk that leaves the table alone needs no name. -/
theorem Supplied.stay (ht : t.WellFormed) (hn : Named root t) (n : Nat)
    {r : Except InferenceError α}
    (hr : ∀ base attempts, r ≠ .error (.namesExhausted base attempts)) :
    Supplied root t n (r, t) where
  wellFormed := ht
  named := hn
  size_le := Nat.le_add_right _ _
  found := hr

/-- One stretch after another. -/
theorem Supplied.trans {a : α} {w : Walk β} (h : Supplied root t n ((.ok a, t') : Walk α))
    (h' : Supplied root t' m w) : Supplied root t (n + m) w where
  wellFormed := h'.wellFormed
  named := h'.named
  size_le := by
    have hn := h.size_le
    have hm := h'.size_le
    simp only at hn
    omega
  found := h'.found

/-- Joining the elements of an array makes no class. -/
theorem supplied_joinElements (ht : t.WellFormed) (hn : Named root t) {slots : List Slot}
    (hk : ∀ s ∈ slots, s.Known t.entries.size) : Supplied root t 0 (joinElements t slots) := by
  rcases ht.joinAll hk with ⟨hc, _, hl⟩
  have hnamed := hn.run ht hl fun op hop => Or.inl (Or.inl (merges_joinAllOps t slots op hop))
  rw [run_joinElements] at hnamed
  have htable : (joinElements t slots).2 = (t.joinAll slots).2 := by
    rw [joinElements]
    rcases t.joinAll slots with ⟨_ | item, t'⟩ <;> rfl
  refine ⟨htable ▸ hc.wellFormed, hnamed, htable ▸ hc.size_le, fun base attempts he => ?_⟩
  rw [joinElements] at he
  rcases hj : t.joinAll slots with ⟨_ | item, t'⟩ <;> rw [hj] at he <;> cases he

/-- With room for one class more an object finds a name. -/
theorem supplied_registerObject (ht : t.WellFormed) (hn : Named root t) {fields : List Field}
    (hk : Field.KnownAll t.entries.size fields) (hroom : t.size + 2 < maxNameAttempts)
    (hint : String) : Supplied root t 1 (registerObject t hint fields) := by
  have hop : Walks (.register (Identifier.typeName hint fallbackName) fields) :=
    Or.inr ⟨hint, fields, rfl⟩
  have hknown : (Operation.register (Identifier.typeName hint fallbackName) fields).Known
      t.entries.size := hk
  have hnamed := hn.apply ht hknown (fun hp => hp.elim) (Or.inl hop)
  have hwell := (ht.apply hknown fun hp => hp.elim).1
  simp only [Operation.apply] at hnamed hwell
  rw [registerObject]
  rcases t.registerOrReuse_cases (Identifier.typeName hint fallbackName) fields with
    ⟨id, heq, _⟩ | ⟨name, heq, _⟩ | heq
  · rw [heq]
    exact .stay ht hn 1 fun _ _ he => by cases he
  · rw [heq] at hnamed hwell ⊢
    exact ⟨hwell, hnamed, Nat.le_of_eq (size_push t name _), fun _ _ he => by cases he⟩
  · -- The search for a name fails only when all candidates are taken.
    rcases hn.exists_firstFree hroom (Identifier.typeName hint fallbackName) with ⟨name, hname⟩
    rw [registerOrReuse, hname] at heq
    simp only at heq
    split at heq <;> cases heq

mutual

/-- A walk over few objects finds names for all of them. -/
theorem supplied_observe (o : Options) {t : ClassTable} (ht : t.WellFormed) (hn : Named root t)
    (hint : String) (depth : Nat) (path : List Step) (v : Json)
    (hroom : t.size + v.objects + 2 ≤ maxNameAttempts) :
    Supplied root t v.objects (observe o t hint depth path v) := by
  by_cases hd : o.maxDepth < depth
  · rw [observe_tooDeep hd]
    exact .stay ht hn _ fun _ _ he => by cases he
  · rw [observe.eq_def, if_neg hd]
    cases v with
    | null | bool _ | number _ | string _ => exact .stay ht hn _ fun _ _ he => by cases he
    | array items =>
        rw [Json.objects] at hroom ⊢
        have hitems := supplied_observeItems o ht hn hint (depth + 1) path 0 items hroom
        have hk := (legal_observeItemsOps o ht hint (depth + 1) path 0 items).2
        simp only
        rcases hr : observeItems o t hint (depth + 1) path 0 items with ⟨e | slots, t₁⟩
        · exact (hr ▸ hitems).error
        · rw [hr] at hitems
          exact hitems.trans
            (supplied_joinElements hitems.wellFormed hitems.named (hk slots t₁ hr))
    | object members =>
        rw [Json.objects] at hroom ⊢
        have hmembers := supplied_observeMembers o ht hn (depth + 1) path members (by omega)
        have hk := (legal_observeMembersOps o ht (depth + 1) path members).2
        simp only
        rcases hr : observeMembers o t (depth + 1) path members with ⟨e | fields, t₁⟩
        · exact (hr ▸ hmembers).error.mono (Nat.le_succ _)
        · rw [hr] at hmembers
          -- The object itself is not registered yet, so there is room for it.
          have hsize := hmembers.size_le
          exact hmembers.trans (supplied_registerObject hmembers.wellFormed hmembers.named
            (knownAll_withNames (hk fields t₁ hr)) (by simp only at hsize ⊢; omega) hint)

/-- The same of the elements of an array. Those that are not visited count as objects
    too, and need no names. -/
theorem supplied_observeItems (o : Options) {t : ClassTable} (ht : t.WellFormed)
    (hn : Named root t) (hint : String) (depth : Nat) (path : List Step) (i : Nat)
    (items : List Json) (hroom : t.size + Json.objectsOfItems items + 2 ≤ maxNameAttempts) :
    Supplied root t (Json.objectsOfItems items) (observeItems o t hint depth path i items) := by
  cases items with
  | nil => exact .stay ht hn _ fun _ _ he => by cases he
  | cons v rest =>
      rw [Json.objectsOfItems] at hroom ⊢
      rw [observeItems.eq_def]
      simp only
      split
      · exact .stay ht hn _ fun _ _ he => by cases he
      · have hv := supplied_observe o ht hn hint depth (.index i :: path) v (by omega)
        rcases hr : observe o t hint depth (.index i :: path) v with ⟨e | slot, t₁⟩
        · exact (hr ▸ hv).error.mono (Nat.le_add_right _ _)
        · rw [hr] at hv
          have hsize := hv.size_le
          -- What the first element used up of the room is what it has objects.
          have hrest := hv.trans (supplied_observeItems o hv.wellFormed hv.named hint depth path
            (i + 1) rest (by simp only at hsize ⊢; omega))
          simp only
          rcases hr' : observeItems o t₁ hint depth path (i + 1) rest with ⟨e | slots, t₂⟩
          · exact (hr' ▸ hrest).error
          · exact (hr' ▸ hrest).ok _

/-- The same of the members of an object. -/
theorem supplied_observeMembers (o : Options) {t : ClassTable} (ht : t.WellFormed)
    (hn : Named root t) (depth : Nat) (path : List Step) (members : List (String × Json))
    (hroom : t.size + Json.objectsOfMembers members + 2 ≤ maxNameAttempts) :
    Supplied root t (Json.objectsOfMembers members) (observeMembers o t depth path members) := by
  cases members with
  | nil => exact .stay ht hn _ fun _ _ he => by cases he
  | cons member rest =>
      rcases member with ⟨key, v⟩
      rw [Json.objectsOfMembers] at hroom ⊢
      rw [observeMembers.eq_def]
      simp only
      -- There is room for the objects of the first member, and then for the others.
      have hv := supplied_observe o ht hn key depth (.key key :: path) v (by omega)
      rcases hr : observe o t key depth (.key key :: path) v with ⟨e | slot, t₁⟩
      · exact (hr ▸ hv).error.mono (Nat.le_add_right _ _)
      · rw [hr] at hv
        have hsize := hv.size_le
        have hrest := hv.trans (supplied_observeMembers o hv.wellFormed hv.named depth path rest
          (by simp only at hsize ⊢; omega))
        simp only
        rcases hr' : observeMembers o t₁ depth path rest with ⟨e | fields, t₂⟩
        · exact (hr' ▸ hrest).error
        · exact (hr' ▸ hrest).ok _

end

/-- A document with fewer than 9,999 objects below its root never runs out of
    names, whatever its keys are and however its classes are merged. -/
theorem observeRoot_ne_namesExhausted (o : Options) (name : String) {v : Json}
    (h : v.objectsBelow < 9999) (base : String) (attempts : Nat) :
    (observeRoot o .empty name v).1 ≠ .error (.namesExhausted base attempts) := by
  cases v with
  | null | bool _ | number _ | string _ | array _ => exact fun he => by cases he
  | object members =>
      have hw := WellFormed.empty.rewrites_self (rewrites_reserveName .empty name)
      have hroom : (ClassTable.empty.reserveName name).size + Json.objectsOfMembers members + 2 ≤
          maxNameAttempts := by
        rw [show (ClassTable.empty.reserveName name).size = 0 from rfl, maxNameAttempts]
        simp only [Json.objectsBelow] at h
        omega
      have hfound := (supplied_observeMembers o hw (named_reserveName_empty name) 1 [] members
        hroom).found base attempts
      rw [observeRoot]
      rcases hr : observeMembers o (ClassTable.empty.reserveName name) 1 [] members with
        ⟨e | fields, t₁⟩
      · rw [hr] at hfound
        exact fun he => hfound (congrArg Except.error (Except.error.inj he))
      · exact fun he => by cases he

/-- A document in which everything asks for the same name: the root, the objects
    below it, and the elements of an array that become one class. -/
def namesakesDocument : Json :=
  .object [("data", .object [("data", .object []), ("Data", .null)]),
    ("DATA", .array [.object [("x", .bool true)], .object [("y", .bool true)]])]

/-- They all find names. -/
theorem observeRoot_ne_namesExhausted_namesakes : namesakesDocument.objectsBelow = 4 ∧
    ∀ base attempts, (observeRoot {} .empty "Data" namesakesDocument).1 ≠
      .error (.namesExhausted base attempts) :=
  ⟨by decide, fun base attempts =>
    observeRoot_ne_namesExhausted {} "Data" (by decide) base attempts⟩

end Inference

end DartModels
