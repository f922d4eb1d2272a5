import DartModels.Proofs.Sessions

/-!
# The path as a stack

A walk that keeps the path to the current value in its state.

Where the walk is, is only wanted when an error is reported. So an inference can
carry one path along, put a step on it before it looks at a part of a value, and
take the step off again behind it. The path is then part of what one request
hands on to the next, beside the class table, and a step that is left on it
would show up in every later report. A walk can fail at any depth and leaves all
its calls at once, which is where steps would be forgotten.

None is. Every call takes off what it has put on before it looks at how the call
inside it came out. So it makes no difference whether the path is handed down or
kept, and between two requests there is none.

## Main definitions

* `Walker`: A class table, and the path to the current value.
* `Walker.observe`, `Walker.observeRoot`: The walk with its path in the state.
* `Walker.session`: The state after a row of requests.

## Theorems

* `Walker.observe_eq`: A walk answers as if its path were handed down, and
  leaves the path as it was.
* `Walker.session_eq`: Between requests the path is empty.
-/

namespace DartModels

namespace Inference

/-- The state of an inference: the classes so far, and the steps that lead to the
    value that is looked at, the last step first. -/
structure Walker where
  table : ClassTable
  path : List Step

namespace Walker

/-- Go one step down. -/
def push (w : Walker) (step : Step) : Walker :=
  { w with path := step :: w.path }

/-- Go one step up. -/
def pop (w : Walker) : Walker :=
  { w with path := w.path.tail }

/-- What comes of an operation on the classes alone. -/
def within {α : Type} (w : Walker) (r : Walk α) : Except InferenceError α × Walker :=
  (r.1, { w with table := r.2 })

mutual

/-- The slot of the current value. -/
def observe (o : Options) (w : Walker) (hint : String) (depth : Nat) (v : Json) :
    Except InferenceError Slot × Walker :=
  if o.maxDepth < depth then (.error (.tooDeep w.path.reverse o.maxDepth), w)
  else
    match v with
    | .null => (.ok ⟨.null, true⟩, w)
    | .bool _ => (.ok (.required (.primitive .bool)), w)
    | .number n => (.ok (.required (.primitive (numberShape n))), w)
    | .string _ => (.ok (.required (.primitive .string)), w)
    | .array items =>
        match observeItems o w hint (depth + 1) 0 items with
        | (.ok slots, w) => w.within (joinElements w.table slots)
        | (.error e, w) => (.error e, w)
    | .object members =>
        match observeMembers o w (depth + 1) members with
        | (.ok fields, w) => w.within (registerObject w.table hint (Field.withNames fields))
        | (.error e, w) => (.error e, w)

/-- The slots of the elements of the current array from number `i` on. -/
def observeItems (o : Options) (w : Walker) (hint : String) (depth : Nat) (i : Nat) :
    List Json → Except InferenceError (List Slot) × Walker
  | [] => (.ok [], w)
  | v :: rest =>
      if i ≠ 0 && !o.mergeArrays then (.ok [], w)
      else
        -- The step is taken back before the answer is looked at.
        let r := observe o (w.push (.index i)) hint depth v
        let w := r.2.pop
        match r.1 with
        | .error e => (.error e, w)
        | .ok slot =>
            match observeItems o w hint depth (i + 1) rest with
            | (.ok slots, w) => (.ok (slot :: slots), w)
            | (.error e, w) => (.error e, w)

/-- The fields for the members of the current object, still without names. -/
def observeMembers (o : Options) (w : Walker) (depth : Nat) :
    List (String × Json) → Except InferenceError (List Field) × Walker
  | [] => (.ok [], w)
  | (key, v) :: rest =>
      let r := observe o (w.push (.key key)) key depth v
      let w := r.2.pop
      match r.1 with
      | .error e => (.error e, w)
      | .ok slot =>
          match observeMembers o w depth rest with
          | (.ok fields, w) => (.ok (⟨"", key, slot⟩ :: fields), w)
          | (.error e, w) => (.error e, w)

end

/-- The class of a whole document, pinned under `name`. -/
def observeRoot (o : Options) (w : Walker) (name : String) (v : Json) :
    Except InferenceError ClassId × Walker :=
  match v with
  | .object members =>
      match observeMembers o { w with table := w.table.reserveName name } 1 members with
      | (.ok fields, w) =>
          (.ok (w.table.registerPinned name (Field.withNames fields)).1,
            { w with table := (w.table.registerPinned name (Field.withNames fields)).2 })
      | (.error e, w) => (.error e, w)
  | v => (.error (.notAnObject w.path.reverse v.kind), w)

/-! ### A path that is handed down -/

mutual

/-- A walk answers as if its path were handed down to it, and hands it back. -/
theorem observe_eq (o : Options) (w : Walker) (hint : String) (depth : Nat) (v : Json) :
    w.observe o hint depth v = w.within (Inference.observe o w.table hint depth w.path v) := by
  rw [Walker.observe.eq_def, Inference.observe.eq_def]
  by_cases hd : o.maxDepth < depth
  · simp only [if_pos hd, within]
  · simp only [if_neg hd]
    cases v with
    | null | bool _ | number _ | string _ => rfl
    | array items =>
        simp only [observeItems_eq o w hint (depth + 1) 0 items, within]
        rcases Inference.observeItems o w.table hint (depth + 1) w.path 0 items with ⟨e | s, t⟩ <;>
          rfl
    | object members =>
        simp only [observeMembers_eq o w (depth + 1) members, within]
        rcases Inference.observeMembers o w.table (depth + 1) w.path members with ⟨e | f, t⟩ <;> rfl

/-- The same of elements. Each step is pushed before its element and popped behind it,
    so the next one starts from the same path. -/
theorem observeItems_eq (o : Options) (w : Walker) (hint : String) (depth : Nat) (i : Nat)
    (items : List Json) : w.observeItems o hint depth i items =
      w.within (Inference.observeItems o w.table hint depth w.path i items) := by
  cases items with
  | nil => rfl
  | cons v rest =>
      rw [Walker.observeItems.eq_def, Inference.observeItems.eq_def]
      by_cases hi : (i ≠ 0 && !o.mergeArrays) = true
      · simp only [if_pos hi, within]
      · simp only [if_neg hi, observe_eq o (w.push (.index i)) hint depth v]
        simp only [push, within, pop, List.tail_cons]
        -- Behind the element the path is that of the array again, whether it failed or not.
        rcases Inference.observe o w.table hint depth (.index i :: w.path) v with ⟨e | s, t⟩
        · rfl
        · simp only [observeItems_eq o ⟨t, w.path⟩ hint depth (i + 1) rest, within]
          rcases Inference.observeItems o t hint depth w.path (i + 1) rest with ⟨e | s, t'⟩ <;> rfl

/-- The same of members. -/
theorem observeMembers_eq (o : Options) (w : Walker) (depth : Nat)
    (members : List (String × Json)) : w.observeMembers o depth members =
      w.within (Inference.observeMembers o w.table depth w.path members) := by
  cases members with
  | nil => rfl
  | cons member rest =>
      rcases member with ⟨key, v⟩
      rw [Walker.observeMembers.eq_def, Inference.observeMembers.eq_def]
      simp only [observe_eq o (w.push (.key key)) key depth v]
      simp only [push, within, pop, List.tail_cons]
      rcases Inference.observe o w.table key depth (.key key :: w.path) v with ⟨e | s, t⟩
      · rfl
      · simp only [observeMembers_eq o ⟨t, w.path⟩ depth rest, within]
        rcases Inference.observeMembers o t depth w.path rest with ⟨e | f, t'⟩ <;> rfl

end

/-- The walk over a document begins with an empty path, and ends with one. -/
theorem observeRoot_eq (o : Options) (t : ClassTable) (name : String) (v : Json) :
    observeRoot o ⟨t, []⟩ name v = within ⟨t, []⟩ (Inference.observeRoot o t name v) := by
  cases v with
  | null | bool _ | number _ | string _ | array _ => rfl
  | object members =>
      simp only [observeRoot, Inference.observeRoot, observeMembers_eq, within]
      rcases Inference.observeMembers o (t.reserveName name) 1 [] members with ⟨e | f, t'⟩ <;> rfl

/-! ### Sessions -/

/-- The state after a request, also if it fails. -/
def apply (o : Options) (w : Walker) : Request → Walker
  | .value hint depth v => (w.observe o hint depth v).2
  | .document name v => (w.observeRoot o name v).2

/-- The state after a row of requests to a new inference. -/
def session (o : Options) (rs : List Request) : Walker :=
  rs.foldl (apply o) ⟨.empty, []⟩

/-- No request leaves a step behind, whether it fails or not. -/
theorem apply_eq (o : Options) (t : ClassTable) (r : Request) :
    apply o ⟨t, []⟩ r = ⟨r.apply o t, []⟩ := by
  cases r with
  | value hint depth v => simp only [apply, observe_eq, within, Request.apply]
  | document name v => simp only [apply, observeRoot_eq, within, Request.apply]

/-- So no row of requests does. -/
theorem session_eq (o : Options) (rs : List Request) :
    session o rs = ⟨Inference.session o rs, []⟩ := by
  have hrun : ∀ t, rs.foldl (apply o) ⟨t, []⟩ = ⟨rs.foldl (Request.apply o) t, []⟩ := by
    induction rs with
    | nil => exact fun _ => rfl
    | cons r rest ih =>
        intro t
        rw [List.foldl_cons, List.foldl_cons, apply_eq, ih]
  exact hrun .empty

end Walker

end Inference

end DartModels
