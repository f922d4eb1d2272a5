import DartModels.Proofs.Stack

/-!
# The depth guard

Which value of a document is reported for lying too deep.

The walk looks at the depth of a value when it comes to it. The depth is counted
beside the path, by one for each step, at four places that have to agree. What
should come of it can be said without the walk: write down the paths to all
values in the order in which they are met, and take the first that is longer
than the limit. Its length is one more than the limit, because the value it lies
in was met before and was not reported.

The walk may not get that far. If no name is free for a class, it ends there. It
comes to that class when all its members are done, so the error belongs to a
moment between two values, and the journal of the walk shows it: its last
operation is the registration that failed, in the table that the operations
before it lead to. That is the only other way for a walk below the root to end.

A walk that succeeds has met no value beyond the limit and would have met none
beyond a larger one.

## Main definitions

* `Json.Leads`: The path from a value to one inside it.
* `Inference.places`, `Inference.memberPlaces`: The paths to the values that are
  looked at, in order.
* `Inference.Outcome`: How a walk over these values may end.

## Theorems

* `Inference.mem_places_iff`: Every value has its place, but for the elements of
  an array behind the first if these are not merged.
* `Inference.length_of_first_deep`: The first place that is too deep is too deep
  by one.
* `Inference.outcome_observe`: How a walk ends.
* `Inference.observe_of_limit_le`: What succeeds under a limit succeeds under a
  larger one.
* `Inference.session_depth_guard`: The depth guard in any session.
-/

namespace DartModels

/-- The steps lead from a value to one inside it. -/
inductive Json.Leads : Json → List Step → Json → Prop where
  | here (v : Json) : Leads v [] v
  | member {members : List (String × Json)} {key : String} {v w : Json} {path : List Step}
      (hm : (key, v) ∈ members) (h : Leads v path w) : Leads (.object members) (.key key :: path) w
  | item {items : List Json} {i : Nat} {v w : Json} {path : List Step} (hi : items[i]? = some v)
      (h : Leads v path w) : Leads (.array items) (.index i :: path) w

namespace Inference

/-! ### Places -/

mutual

/-- The path to a value, and behind it those to the values inside. -/
def places (o : Options) (path : List Step) (v : Json) : List (List Step) :=
  path ::
    match v with
    | .array items => itemPlaces o path 0 items
    | .object members => memberPlaces o path members
    | _ => []

/-- The paths to the elements of an array from number `i` on. -/
def itemPlaces (o : Options) (path : List Step) (i : Nat) : List Json → List (List Step)
  | [] => []
  | v :: rest =>
      if i ≠ 0 && !o.mergeArrays then []
      else places o (path ++ [.index i]) v ++ itemPlaces o path (i + 1) rest

/-- The paths to the members of an object. -/
def memberPlaces (o : Options) (path : List Step) : List (String × Json) → List (List Step)
  | [] => []
  | (key, v) :: rest => places o (path ++ [.key key]) v ++ memberPlaces o path rest

end

/-- Whether a path goes to the first elements of arrays only, if these are not
    merged. -/
def Shown (o : Options) (path : List Step) : Prop :=
  o.mergeArrays = true ∨ ∀ i, .index i ∈ path → i = 0

/-- The value itself is always shown. -/
theorem shown_nil (o : Options) : Shown o [] :=
  Or.inr fun _ h => absurd h List.not_mem_nil

/-- Keys hide nothing. -/
theorem shown_key_iff {o : Options} {key : String} {path : List Step} :
    Shown o (.key key :: path) ↔ Shown o path := by
  simp [Shown]

/-- An element is shown if arrays are merged or it is the first. -/
theorem shown_index_iff {o : Options} {i : Nat} {path : List Step} :
    Shown o (.index i :: path) ↔ (o.mergeArrays = true ∨ i = 0) ∧ Shown o path := by
  simp only [Shown, List.mem_cons, Step.index.injEq, forall_eq_or_imp, or_and_left]

mutual

/-- The places are the paths into the document, with merging switched off those
    to first elements. -/
theorem mem_places_iff (o : Options) (path : List Step) (v : Json) {p : List Step} :
    p ∈ places o path v ↔ ∃ rest w, p = path ++ rest ∧ v.Leads rest w ∧ Shown o rest := by
  rw [places.eq_def, List.mem_cons]
  -- The value itself is a place in any case, so only its parts make a difference.
  have hhere : p = path → ∃ rest w, p = path ++ rest ∧ v.Leads rest w ∧ Shown o rest :=
    fun hp => ⟨[], v, by rw [hp, List.append_nil], .here v, shown_nil o⟩
  cases v with
  | null | bool _ | number _ | string _ =>
      refine ⟨fun h => hhere (h.resolve_right List.not_mem_nil), ?_⟩
      rintro ⟨_, _, rfl, hleads, _⟩
      cases hleads
      exact Or.inl (List.append_nil path)
  | array items =>
      simp only [mem_itemPlaces_iff o path 0 items, Nat.zero_add]
      constructor
      · rintro (hp | ⟨j, x, rest, w, hx, rfl, hleads, hshown⟩)
        · exact hhere hp
        · exact ⟨_, w, rfl, .item hx hleads, hshown⟩
      · rintro ⟨_, w, rfl, hleads, hshown⟩
        cases hleads with
        | here => exact Or.inl (List.append_nil path)
        | item hx hleads => exact Or.inr ⟨_, _, _, w, hx, rfl, hleads, hshown⟩
  | object members =>
      simp only [mem_memberPlaces_iff o path members]
      constructor
      · rintro (hp | ⟨key, x, rest, w, hx, rfl, hleads, hshown⟩)
        · exact hhere hp
        · exact ⟨_, w, rfl, .member hx hleads, shown_key_iff.mpr hshown⟩
      · rintro ⟨_, w, rfl, hleads, hshown⟩
        cases hleads with
        | here => exact Or.inl (List.append_nil path)
        | member hx hleads =>
            exact Or.inr ⟨_, _, _, w, hx, rfl, hleads, shown_key_iff.mp hshown⟩

/-- The same of the elements from number `i` on. -/
theorem mem_itemPlaces_iff (o : Options) (path : List Step) (i : Nat) (items : List Json)
    {p : List Step} : p ∈ itemPlaces o path i items ↔ ∃ j x rest w, items[j]? = some x ∧
      p = path ++ .index (i + j) :: rest ∧ x.Leads rest w ∧ Shown o (.index (i + j) :: rest) := by
  cases items with
  | nil => simp [itemPlaces]
  | cons v more =>
      rw [itemPlaces.eq_def]
      simp only
      by_cases hi : (i ≠ 0 && !o.mergeArrays) = true
      · -- Only the first element is shown, and the array has none from here on.
        rw [if_pos hi]
        refine ⟨fun h => absurd h List.not_mem_nil, ?_⟩
        rintro ⟨j, x, rest, w, _, _, _, hshown⟩
        have hvisit : o.mergeArrays = true ∨ i = 0 :=
          (shown_index_iff.mp hshown).1.imp_right fun hij => by omega
        exact absurd hi (visits_item_iff.mpr hvisit)
      · have hvisit := visits_item_iff.mp hi
        rw [if_neg hi, List.mem_append, mem_places_iff o (path ++ [Step.index i]) v,
          mem_itemPlaces_iff o path (i + 1) more]
        constructor
        · rintro (⟨rest, w, rfl, hleads, hshown⟩ | ⟨j, x, rest, w, hx, rfl, hleads, hshown⟩)
          · -- Counted from `i`, the first element is number 0 and the others are one
            -- further.
            exact ⟨0, v, rest, w, rfl, by simp, hleads, shown_index_iff.mpr ⟨hvisit, hshown⟩⟩
          · refine ⟨j + 1, x, rest, w, hx, ?_, hleads, ?_⟩
            · rw [Nat.add_right_comm, Nat.add_assoc]
            · rwa [Nat.add_right_comm, Nat.add_assoc] at hshown
        · rintro ⟨j, x, rest, w, hx, rfl, hleads, hshown⟩
          cases j with
          | zero =>
              cases hx
              exact Or.inl ⟨rest, w, by simp, hleads, (shown_index_iff.mp hshown).2⟩
          | succ j =>
              refine Or.inr ⟨j, x, rest, w, hx, ?_, hleads, ?_⟩
              · rw [Nat.add_right_comm, Nat.add_assoc]
              · rwa [Nat.add_right_comm, Nat.add_assoc]

/-- The same of members. -/
theorem mem_memberPlaces_iff (o : Options) (path : List Step) (members : List (String × Json))
    {p : List Step} : p ∈ memberPlaces o path members ↔ ∃ key x rest w, (key, x) ∈ members ∧
      p = path ++ .key key :: rest ∧ x.Leads rest w ∧ Shown o rest := by
  cases members with
  | nil => simp [memberPlaces]
  | cons member more =>
      rcases member with ⟨key, v⟩
      rw [memberPlaces, List.mem_append, mem_places_iff o (path ++ [Step.key key]) v,
        mem_memberPlaces_iff o path more]
      constructor
      · rintro (⟨rest, w, rfl, h⟩ | ⟨key', x, rest, w, hx, h⟩)
        · exact ⟨key, v, rest, w, List.mem_cons_self, by simp, h⟩
        · exact ⟨key', x, rest, w, List.mem_cons_of_mem _ hx, h⟩
      · rintro ⟨key', x, rest, w, hx, rfl, h⟩
        rcases List.mem_cons.mp hx with heq | hx
        · cases heq
          exact Or.inl ⟨rest, w, by simp, h⟩
        · exact Or.inr ⟨key', x, rest, w, hx, rfl, h⟩

end

/-! ### The first place that is too deep -/

/-- The first of some paths that is longer than the limit. -/
def firstDeep (o : Options) (ps : List (List Step)) : Option (List Step) :=
  ps.find? fun p => o.maxDepth < p.length

/-- Of two rows of paths, the first is looked through first. -/
theorem firstDeep_append (o : Options) (ps qs : List (List Step)) :
    firstDeep o (ps ++ qs) = (firstDeep o ps).or (firstDeep o qs) :=
  List.find?_append

/-- So is the first path of a row. -/
theorem firstDeep_cons (o : Options) (p : List Step) (ps : List (List Step)) :
    firstDeep o (p :: ps) = if o.maxDepth < p.length then some p else firstDeep o ps := by
  by_cases h : o.maxDepth < p.length <;> simp [firstDeep, h]

/-- None is found if none is too long. -/
theorem firstDeep_eq_none_iff {o : Options} {ps : List (List Step)} :
    firstDeep o ps = none ↔ ∀ p ∈ ps, p.length ≤ o.maxDepth := by
  simp [firstDeep]

mutual

/-- A value is not reported if it lies in another that is too deep. -/
theorem length_of_first_deep (o : Options) (path : List Step) (v : Json)
    (hpath : path.length ≤ o.maxDepth + 1) {p : List Step}
    (h : firstDeep o (places o path v) = some p) : p.length = o.maxDepth + 1 := by
  rw [places.eq_def, firstDeep_cons] at h
  split at h
  · rw [← Option.some.inj h]
    omega
  · cases v with
    | null | bool _ | number _ | string _ => cases h
    | array items => exact length_of_first_deep_item o path 0 items (by omega) h
    | object members => exact length_of_first_deep_member o path members (by omega) h

/-- The same of elements, whose array is not too deep itself. -/
theorem length_of_first_deep_item (o : Options) (path : List Step) (i : Nat) (items : List Json)
    (hpath : path.length ≤ o.maxDepth) {p : List Step}
    (h : firstDeep o (itemPlaces o path i items) = some p) : p.length = o.maxDepth + 1 := by
  cases items with
  | nil => cases h
  | cons v rest =>
      rw [itemPlaces.eq_def] at h
      simp only at h
      split at h
      · cases h
      · rw [firstDeep_append, Option.or_eq_some_iff] at h
        rcases h with h | ⟨_, h⟩
        · exact length_of_first_deep o _ v (by simpa using hpath) h
        · exact length_of_first_deep_item o path (i + 1) rest hpath h

/-- The same of members. -/
theorem length_of_first_deep_member (o : Options) (path : List Step)
    (members : List (String × Json)) (hpath : path.length ≤ o.maxDepth) {p : List Step}
    (h : firstDeep o (memberPlaces o path members) = some p) : p.length = o.maxDepth + 1 := by
  cases members with
  | nil => cases h
  | cons member rest =>
      rcases member with ⟨key, v⟩
      rw [memberPlaces, firstDeep_append, Option.or_eq_some_iff] at h
      rcases h with h | ⟨_, h⟩
      · exact length_of_first_deep o _ v (by simpa using hpath) h
      · exact length_of_first_deep_member o path rest hpath h

end

/-! ### How a walk ends -/

/-- How a walk over values at `ps` may end, if its journal is `ops`: without an
    error, and no value was too deep; at the first value that was; or at a class
    that found no name. -/
inductive Outcome {α : Type} (o : Options) (t : ClassTable) (ops : List Operation)
    (ps : List (List Step)) : Except InferenceError α → Prop where
  | done {a : α} (h : firstDeep o ps = none) : Outcome o t ops ps (.ok a)
  | tooDeep {p : List Step} (h : firstDeep o ps = some p) :
      Outcome o t ops ps (.error (.tooDeep p o.maxDepth))
  | nameless {base : String} {fields : List Field} {before : List Operation}
      (hops : ops = before ++ [.register base fields])
      (h : (t.run before).registerOrReuse base fields =
        .error ⟨base, ClassTable.maxNameAttempts⟩) :
      Outcome o t ops ps (.error (.namesExhausted base ClassTable.maxNameAttempts))

section Outcome

variable {α β : Type} {o : Options} {t : ClassTable} {ops ops' : List Operation}
variable {ps qs : List (List Step)} {r : Except InferenceError β}

/-- What was to come after an error makes no difference to it. -/
theorem Outcome.error_append {e : InferenceError} (h : Outcome (α := α) o t ops ps (.error e))
    (qs : List (List Step)) : Outcome (α := β) o t ops (ps ++ qs) (.error e) := by
  cases h with
  | tooDeep h => exact .tooDeep (by rw [firstDeep_append, h, Option.some_or])
  | nameless hops h => exact .nameless hops h

/-- A walk that succeeds is followed by what comes next. -/
theorem Outcome.append {a : α} {t' : ClassTable} (h : Outcome o t ops ps (.ok a))
    (hrun : t.run ops = t') (h' : Outcome o t' ops' qs r) :
    Outcome o t (ops ++ ops') (ps ++ qs) r := by
  cases h with
  | done h =>
      cases h' with
      | done h' => exact .done (by rw [firstDeep_append, h, Option.none_or, h'])
      | tooDeep h' => exact .tooDeep (by rw [firstDeep_append, h, Option.none_or, h'])
      | nameless hops h' =>
          refine .nameless (by rw [hops, List.append_assoc]) ?_
          rwa [ClassTable.run_append, hrun]

/-- An answer that is made of another adds no error. -/
theorem Outcome.map {r : Except InferenceError α} (h : Outcome o t ops ps r) (f : α → β) :
    Outcome o t ops ps (r.map f) := by
  cases h with
  | done h => exact .done h
  | tooDeep h => exact .tooDeep h
  | nameless hops h => exact .nameless hops h

end Outcome

/-- To join elements is to succeed. -/
theorem outcome_joinElements (o : Options) (t t' : ClassTable) (ops : List Operation)
    (slots : List Slot) : Outcome o t ops [] (joinElements t' slots).1 := by
  rw [joinElements]
  rcases t'.joinAll slots with ⟨_ | item, t''⟩ <;> exact .done rfl

/-- To add a class is to succeed, or to find no name. -/
theorem outcome_registerObject (o : Options) (t : ClassTable) (hint : String)
    (fields : List Field) :
    Outcome o t [.register (Identifier.typeName hint fallbackName) fields] []
      (registerObject t hint fields).1 := by
  simp only [registerObject]
  rcases t.registerOrReuse_cases (Identifier.typeName hint fallbackName) fields with
    ⟨id, h, _⟩ | ⟨name, h, _⟩ | h
  · rw [h]
    exact .done rfl
  · rw [h]
    exact .done rfl
  · rw [h]
    exact .nameless (List.nil_append _).symm h

mutual

/-- A walk ends at the first value that is too deep, unless it finds no name for
    a class before that. -/
theorem outcome_observe (o : Options) (t : ClassTable) (hint : String) {depth : Nat}
    (path : List Step) (v : Json) (hd : depth = path.length) :
    Outcome o t (observeOps o t hint depth path v) (places o path.reverse v)
      (observe o t hint depth path v).1 := by
  rw [observeOps.eq_def, observe.eq_def, places.eq_def]
  by_cases hdeep : o.maxDepth < depth
  · -- The value itself is the first.
    rw [if_pos hdeep, if_pos hdeep]
    exact .tooDeep (by rw [firstDeep_cons, List.length_reverse, ← hd, if_pos hdeep])
  · rw [if_neg hdeep, if_neg hdeep]
    -- The value is not too deep, so the first one that is lies inside it.
    have hown : firstDeep o [path.reverse] = none := by
      rw [firstDeep_cons, List.length_reverse, ← hd, if_neg hdeep]
      rfl
    have hstart : Outcome o t [] [path.reverse] (.ok ()) := .done hown
    cases v with
    | null | bool _ | number _ | string _ => exact .done hown
    | array items =>
        have h := hstart.append rfl
          (outcome_observeItems o t hint path 0 items (congrArg (· + 1) hd))
        have hrun := run_observeItemsOps o t hint (depth + 1) path 0 items
        simp only
        rcases hr : observeItems o t hint (depth + 1) path 0 items with ⟨e | slots, t'⟩
        · rw [hr] at h
          simpa using h.error_append []
        · rw [hr] at h hrun
          -- Joining the elements looks at no further value and does not fail.
          simpa using h.append hrun (outcome_joinElements o _ t' (t'.joinAllOps slots) slots)
    | object members =>
        have h := hstart.append rfl (outcome_observeMembers o t path members (congrArg (· + 1) hd))
        have hrun := run_observeMembersOps o t (depth + 1) path members
        simp only
        rcases hr : observeMembers o t (depth + 1) path members with ⟨e | fields, t'⟩
        · rw [hr] at h
          simpa using h.error_append []
        · rw [hr] at h hrun
          -- The class comes last. If it finds no name, the journal ends with it.
          simpa using h.append hrun (outcome_registerObject o t' hint (Field.withNames fields))

/-- The same of elements: after the first has succeeded, the others are walked over in
    the table it left. -/
theorem outcome_observeItems (o : Options) (t : ClassTable) (hint : String) {depth : Nat}
    (path : List Step) (i : Nat) (items : List Json) (hd : depth = path.length + 1) :
    Outcome o t (observeItemsOps o t hint depth path i items) (itemPlaces o path.reverse i items)
      (observeItems o t hint depth path i items).1 := by
  cases items with
  | nil => exact .done rfl
  | cons v rest =>
      rw [observeItemsOps.eq_def, observeItems.eq_def, itemPlaces.eq_def]
      by_cases hi : (i ≠ 0 && !o.mergeArrays) = true
      · simp only [if_pos hi]
        exact .done rfl
      · simp only [if_neg hi]
        have h := outcome_observe o t hint (.index i :: path) v hd
        have hrun := run_observeOps o t hint depth (.index i :: path) v
        rw [List.reverse_cons] at h
        -- An error in the first element is that of the row. Otherwise the row goes on
        -- behind it.
        rcases hr : observe o t hint depth (.index i :: path) v with ⟨e | slot, t'⟩
        · rw [hr] at h
          rw [List.append_nil]
          exact h.error_append _
        · rw [hr] at h hrun
          have hrest := h.append hrun (outcome_observeItems o t' hint path (i + 1) rest hd)
          simp only
          rcases hr' : observeItems o t' hint depth path (i + 1) rest with ⟨e | slots, t''⟩
          · rw [hr'] at hrest
            exact hrest.map (slot :: ·)
          · rw [hr'] at hrest
            exact hrest.map (slot :: ·)

/-- The same of members. -/
theorem outcome_observeMembers (o : Options) (t : ClassTable) {depth : Nat} (path : List Step)
    (members : List (String × Json)) (hd : depth = path.length + 1) :
    Outcome o t (observeMembersOps o t depth path members) (memberPlaces o path.reverse members)
      (observeMembers o t depth path members).1 := by
  cases members with
  | nil => exact .done rfl
  | cons member rest =>
      rcases member with ⟨key, v⟩
      rw [observeMembersOps.eq_def, observeMembers.eq_def, memberPlaces]
      simp only
      have h := outcome_observe o t key (.key key :: path) v hd
      have hrun := run_observeOps o t key depth (.key key :: path) v
      rw [List.reverse_cons] at h
      -- And so with the members.
      rcases hr : observe o t key depth (.key key :: path) v with ⟨e | slot, t'⟩
      · rw [hr] at h
        rw [List.append_nil]
        exact h.error_append _
      · rw [hr] at h hrun
        have hrest := h.append hrun (outcome_observeMembers o t' path rest hd)
        simp only
        rcases hr' : observeMembers o t' depth path rest with ⟨e | fields, t''⟩
        · rw [hr'] at hrest
          exact hrest.map (⟨"", key, slot⟩ :: ·)
        · rw [hr'] at hrest
          exact hrest.map (⟨"", key, slot⟩ :: ·)

end

/-- The walk over a document ends as that over its members does. -/
theorem outcome_observeRoot (o : Options) (t : ClassTable) (name : String)
    (members : List (String × Json)) :
    Outcome o t (observeRootOps o t name (.object members)) (memberPlaces o [] members)
      (observeRoot o t name (.object members)).1 := by
  have hstart : Outcome o t [.reserve name] [] (.ok ()) := .done rfl
  have hmembers : Outcome o (t.reserveName name)
      (observeMembersOps o (t.reserveName name) 1 [] members) (memberPlaces o [] members)
      (observeMembers o (t.reserveName name) 1 [] members).1 :=
    outcome_observeMembers o (t.reserveName name) [] members rfl
  have h := hstart.append rfl hmembers
  simp only [observeRootOps, observeRoot]
  rcases hr : observeMembers o (t.reserveName name) 1 [] members with ⟨e | fields, t'⟩
  · rw [hr] at h
    simpa using h.error_append []
  · rw [hr] at h
    cases h with
    | done h => exact .done h

/-! ### Larger limits -/

mutual

/-- What succeeds under a limit comes to the same under a larger one. -/
theorem observe_of_limit_le {o : Options} {m : Nat} (hm : o.maxDepth ≤ m) {t t' : ClassTable}
    {hint : String} {depth : Nat} {path : List Step} {v : Json} {s : Slot}
    (h : observe o t hint depth path v = (.ok s, t')) :
    observe { o with maxDepth := m } t hint depth path v = (.ok s, t') := by
  have hd := le_maxDepth_of_observe_eq_ok h
  have hd' : ¬ m < depth := by omega
  rw [observe.eq_def, if_neg hd']
  cases v with
  | null | bool _ | number _ | string _ =>
      rw [observe.eq_def, if_neg hd] at h
      exact h
  | array items =>
      rcases observe_array_eq_ok h with ⟨slots, t₁, hitems, hjoin, _⟩
      simp only [observeItems_of_limit_le hm hitems, hjoin]
  | object members =>
      rcases observe_object_eq_ok h with ⟨fields, t₁, hmembers, hnew, _⟩
      simp only [observeMembers_of_limit_le hm hmembers, hnew]

/-- The same of elements. -/
theorem observeItems_of_limit_le {o : Options} {m : Nat} (hm : o.maxDepth ≤ m)
    {t t' : ClassTable} {hint : String} {depth : Nat} {path : List Step} {i : Nat}
    {items : List Json} {slots : List Slot}
    (h : observeItems o t hint depth path i items = (.ok slots, t')) :
    observeItems { o with maxDepth := m } t hint depth path i items = (.ok slots, t') := by
  cases items with
  | nil => exact h
  | cons v rest =>
      by_cases hi : (i ≠ 0 && !o.mergeArrays) = true
      · rw [observeItems.eq_def] at h ⊢
        simp only [if_pos hi] at h ⊢
        exact h
      · rcases observeItems_cons_eq_ok (visits_item_iff.mp hi) h with
          ⟨slot, slots', t₁, rfl, hslot, hrest, _⟩
        rw [observeItems.eq_def]
        simp only [if_neg hi, observe_of_limit_le hm hslot, observeItems_of_limit_le hm hrest]

/-- The same of members. -/
theorem observeMembers_of_limit_le {o : Options} {m : Nat} (hm : o.maxDepth ≤ m)
    {t t' : ClassTable} {depth : Nat} {path : List Step} {members : List (String × Json)}
    {fields : List Field} (h : observeMembers o t depth path members = (.ok fields, t')) :
    observeMembers { o with maxDepth := m } t depth path members = (.ok fields, t') := by
  cases members with
  | nil => exact h
  | cons member rest =>
      rcases member with ⟨key, v⟩
      rcases observeMembers_cons_eq_ok h with ⟨slot, fields', t₁, rfl, hslot, hrest, _⟩
      rw [observeMembers.eq_def]
      simp only [observe_of_limit_le hm hslot, observeMembers_of_limit_le hm hrest]

end

/-- The same of a whole document. -/
theorem observeRoot_of_limit_le {o : Options} {m : Nat} (hm : o.maxDepth ≤ m) {t t' : ClassTable}
    {name : String} {v : Json} {id : ClassId} (h : observeRoot o t name v = (.ok id, t')) :
    observeRoot { o with maxDepth := m } t name v = (.ok id, t') := by
  rcases observeRoot_eq_ok h with ⟨members, fields, t₁, rfl, hmembers, hpin, _⟩
  simp only [observeRoot, observeMembers_of_limit_le hm hmembers, hpin]

/-! ### The guard -/

/-- The depth guard, whatever has been asked for before and whether that failed.
    If a value of a document lies too deep, then the walk fails. Its error names
    the first such value by its path in the document, which is longer than the
    limit by one, unless a class found no name before the walk got there; in that
    case the journal ends with it. If no value lies too deep, then no value is
    reported. A walk that succeeds gives the same class and the same table under
    every larger limit. All this is also true if the path is kept in the state
    from request to request, since every request begins with an empty one. -/
theorem session_depth_guard (o : Options) (rs : List Request) (name : String)
    (members : List (String × Json)) :
    ((∃ q ∈ memberPlaces o [] members, o.maxDepth < q.length) →
      ∃ p e, firstDeep o (memberPlaces o [] members) = some p ∧ p.length = o.maxDepth + 1 ∧
        (∃ w, Json.Leads (.object members) p w) ∧
        (observeRoot o (session o rs) name (.object members)).1 = .error e ∧
        (e = .tooDeep p o.maxDepth ∧
            e.message = s!"nesting deeper than {o.maxDepth} levels at {Path.render p}" ∨
          ∃ base fields before, e = .namesExhausted base ClassTable.maxNameAttempts ∧
            observeRootOps o (session o rs) name (.object members) =
              before ++ [.register base fields] ∧
            ((session o rs).run before).registerOrReuse base fields =
              .error ⟨base, ClassTable.maxNameAttempts⟩)) ∧
      ((∀ q ∈ memberPlaces o [] members, q.length ≤ o.maxDepth) →
        ∀ p limit, (observeRoot o (session o rs) name (.object members)).1 ≠
          .error (.tooDeep p limit)) ∧
      (∀ id t', observeRoot o (session o rs) name (.object members) = (.ok id, t') →
        ∀ m, o.maxDepth ≤ m →
          observeRoot { o with maxDepth := m } (session o rs) name (.object members) =
            (.ok id, t')) ∧
      (Walker.session o rs).path = [] ∧
      (Walker.session o rs).observeRoot o name (.object members) =
        ((observeRoot o (session o rs) name (.object members)).1,
          ⟨(observeRoot o (session o rs) name (.object members)).2, []⟩) := by
  have hend := outcome_observeRoot o (session o rs) name members
  refine ⟨?_, ?_, fun id t' h m hm => observeRoot_of_limit_le hm h, ?_, ?_⟩
  · rintro ⟨q, hq, hdeep⟩
    -- There is a first value that is too deep, and its path leads into the document.
    rcases hfirst : firstDeep o (memberPlaces o [] members) with _ | p
    · exact absurd (firstDeep_eq_none_iff.mp hfirst q hq) (Nat.not_le_of_lt hdeep)
    · have hlength := length_of_first_deep_member o [] members (Nat.zero_le _) hfirst
      rcases (mem_memberPlaces_iff o [] members).mp (List.mem_of_find?_eq_some hfirst) with
        ⟨key, x, rest, w, hx, hp, hleads, _⟩
      have hw : ∃ w, Json.Leads (.object members) p w :=
        ⟨w, by rw [hp, List.nil_append]; exact .member hx hleads⟩
      -- The walk ended there, or before that at a class without a name. It cannot have
      -- succeeded.
      generalize (observeRoot o (session o rs) name (.object members)).1 = r at hend
      cases hend with
      | done h => exact absurd (h.symm.trans hfirst) (by simp)
      | tooDeep h =>
          rw [hfirst] at h
          cases h
          exact ⟨p, _, rfl, hlength, hw, rfl, Or.inl ⟨rfl, rfl⟩⟩
      | nameless hops h =>
          exact ⟨p, _, rfl, hlength, hw, rfl, Or.inr ⟨_, _, _, rfl, hops, h⟩⟩
  · -- An error that reports a value has found it.
    intro hall p limit heq
    rw [heq] at hend
    cases hend with
    | tooDeep h => exact absurd ((firstDeep_eq_none_iff.mpr hall).symm.trans h) (by simp)
  -- The path in the state is empty between requests.
  · rw [Walker.session_eq]
  · rw [Walker.session_eq, Walker.observeRoot_eq]
    rfl

/-- A document with a class, and with two values that lie deeper than three. -/
def guardedMembers : List (String × Json) :=
  [("a", .object [("id", .bool true)]), ("b", .array [.array [.null], .array [.array [.null]]]),
    ("z", .object [("y", .array [.array [.array [.null]]])])]

/-- The first of them is reported, after a request that failed too. With a limit
    of five the document has a class, and with a limit of nine the same. -/
theorem session_depth_guard_failure :
    (∃ e, sampleRequests[1].error? { maxDepth := 3 } (session { maxDepth := 3 }
        [sampleRequests[0]]) = some e) ∧
      (∃ q ∈ memberPlaces { maxDepth := 3 } [] guardedMembers, 3 < q.length) ∧
      (∃ e, (observeRoot { maxDepth := 3 } (session { maxDepth := 3 } sampleRequests) "R"
          (.object guardedMembers)).1 = .error e ∧
        e = .tooDeep [.key "b", .index 1, .index 0, .index 0] 3 ∧
        e.message = "nesting deeper than 3 levels at $.b[1][0][0]") ∧
      ∃ id t', observeRoot { maxDepth := 5 } (session { maxDepth := 5 } sampleRequests) "R"
          (.object guardedMembers) = (.ok id, t') ∧
        observeRoot { maxDepth := 9 } (session { maxDepth := 5 } sampleRequests) "R"
          (.object guardedMembers) = (.ok id, t') := by
  -- What the two runs come to is computed, and the theorem says what it means.
  have hdeep : ∃ q ∈ memberPlaces { maxDepth := 3 } [] guardedMembers, 3 < q.length := by
    decide +kernel
  have hfirst : firstDeep { maxDepth := 3 } (memberPlaces { maxDepth := 3 } [] guardedMembers) =
      some [.key "b", .index 1, .index 0, .index 0] := by decide +kernel
  have herror : (Request.document "R" (.object guardedMembers)).error? { maxDepth := 3 }
      (session { maxDepth := 3 } sampleRequests) =
        some (.tooDeep [.key "b", .index 1, .index 0, .index 0] 3) := by decide +kernel
  have hnone : (Request.document "R" (.object guardedMembers)).error? { maxDepth := 5 }
      (session { maxDepth := 5 } sampleRequests) = none := by decide +kernel
  have hfailed : sampleRequests[1].error? { maxDepth := 3 } (session { maxDepth := 3 }
      [sampleRequests[0]]) = some (.tooDeep [.key "z", .index 0, .index 0, .index 0] 3) := by
    decide +kernel
  refine ⟨⟨_, hfailed⟩, hdeep, ?_, ?_⟩
  · rcases (session_depth_guard { maxDepth := 3 } sampleRequests "R" guardedMembers).1 hdeep with
      ⟨p, e, hp, _, _, hr, hcase⟩
    rw [hfirst, Option.some.injEq] at hp
    have he : e = .tooDeep [.key "b", .index 1, .index 0, .index 0] 3 := by
      simpa only [Request.error?, hr, Option.some.injEq] using herror
    -- The error is not one of names, since it is the one that was computed.
    rcases hcase with ⟨_, hmessage⟩ | ⟨_, _, _, hnames, _⟩
    · refine ⟨e, hr, he, hmessage.trans ?_⟩
      rw [← hp]
      decide +kernel
    · rw [he] at hnames
      cases hnames
  · rcases hr : observeRoot { maxDepth := 5 } (session { maxDepth := 5 } sampleRequests) "R"
      (.object guardedMembers) with ⟨e | id, t'⟩
    · simp only [Request.error?, hr] at hnone
      cases hnone
    · exact ⟨id, t', rfl, (session_depth_guard { maxDepth := 5 } sampleRequests "R"
        guardedMembers).2.2.1 id t' hr 9 (by decide)⟩

end Inference

end DartModels
