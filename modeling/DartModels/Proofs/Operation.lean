import DartModels.Proofs.Join

/-!
# Operations on the class table

Everything a caller can ask of a class table, as data, and what a sequence of
such requests makes of it.

An invariant of the table is a statement about all sequences of operations.
Having them as data turns it into an induction over a list, with one case for
each operation. Three of the nine operations are not primitive: joining two
slots, joining a row of slots and merging two classes come down to a sequence
of `absorb` and `replace`, which depends on the table it starts from. The
journals compute that sequence. `run_mergeOps` and its companions say that
playing a journal back gives the table that the operation itself leaves
behind, so whatever holds after every sequence of primitive operations holds
in the middle of a merge as well, where a class has already given way and the
fields of the other are not yet united.

Numbers are the only arguments that can be wrong. A number is known once it
has been given out, and it stays known when its class gives way. `Legal` asks
for known numbers and for one pinned class at most, and nothing else.
`Reachable` asks for known numbers only: a table that serves several documents
has a root for each of them.

## Main definitions

* `Operation`, `Operation.apply`: A request and its effect.
* `ClassTable.run`: The effect of a sequence.
* `Operation.Known`, `Legal`: Sequences whose numbers were given out before.
* `Reachable`: The tables that such operations lead to.
* `Shape.joinOps`, `Field.unionOps`, `ClassTable.mergeOps`,
  `ClassTable.joinAllOps`: The journals.

## Theorems

* `run_mergeOps`: The journal of a merge leads where the merge leads.
* `run_joinAllOps`: The same for a row of slots.
* `legal_append`: A sequence is legal if its parts are, one after the other.
-/

namespace DartModels

/-- A request to a class table. -/
inductive Operation where
  | reserve (name : String)
  | register (base : String) (fields : List Field)
  | pin (name : String) (fields : List Field)
  | absorb (a b : ClassId)
  | replace (id : ClassId) (fields : List Field)
  | mergeClasses (a b : ClassId)
  | mergeSlots (a b : Slot)
  | mergeAll (slots : List Slot)
  | fold

namespace Operation

/-- The table after an operation. A class for which no name is free leaves it
    as it was. -/
def apply (t : ClassTable) : Operation → ClassTable
  | .reserve name => t.reserveName name
  | .register base fields =>
      match t.registerOrReuse base fields with
      | .ok (_, t') => t'
      | .error _ => t
  | .pin name fields => (t.registerPinned name fields).2
  | .absorb a b => (t.absorb a b).2
  | .replace id fields => (t.replaceFields id fields).2
  | .mergeClasses a b => (t.mergeClasses a b).2
  | .mergeSlots a b => (t.joinSlots a b).2
  | .mergeAll slots => (t.joinAll slots).2
  | .fold => t.foldDuplicates

end Operation

namespace Field

/-- Every class that the fields refer to has a number below `n`. -/
def KnownAll (n : Nat) (fields : List Field) : Prop :=
  ∀ f ∈ fields, ∀ id ∈ f.slot.shape.ids, id < n

instance (n : Nat) (fields : List Field) : Decidable (KnownAll n fields) :=
  inferInstanceAs (Decidable (∀ f ∈ fields, ∀ id ∈ f.slot.shape.ids, id < n))

end Field

namespace Slot

/-- Every class that the slot refers to has a number below `n`. -/
def Known (n : Nat) (s : Slot) : Prop :=
  ∀ id ∈ s.shape.ids, id < n

instance (n : Nat) (s : Slot) : Decidable (s.Known n) :=
  inferInstanceAs (Decidable (∀ id ∈ s.shape.ids, id < n))

end Slot

namespace Operation

/-- All numbers of a request are among the first `n`, which are those that a
    table with `n` entries has given out. -/
def Known (n : Nat) : Operation → Prop
  | .reserve _ => True
  | .register _ fields => Field.KnownAll n fields
  | .pin _ fields => Field.KnownAll n fields
  | .absorb a b => a < n ∧ b < n
  | .replace id fields => id < n ∧ Field.KnownAll n fields
  | .mergeClasses a b => a < n ∧ b < n
  | .mergeSlots a b => a.Known n ∧ b.Known n
  | .mergeAll slots => ∀ s ∈ slots, s.Known n
  | .fold => True

/-- Whether a request pins a class. -/
def Pins : Operation → Prop
  | .pin _ _ => True
  | _ => False

/-- Whether a request is one of the two that merges are made of. The fields
    that a merge puts in place are in order. -/
def Merges : Operation → Prop
  | .absorb _ _ => True
  | .replace _ fields => Field.Labelled fields
  | _ => False

/-- Whether the field lists that a request brings into the table have a
    property. The requests that are made of others bring in none themselves. -/
def Brings (P : List Field → Prop) : Operation → Prop
  | .register _ fields | .pin _ fields | .replace _ fields => P fields
  | .reserve _ | .absorb _ _ | .fold => True
  | .mergeClasses _ _ | .mergeSlots _ _ | .mergeAll _ => False

/-- What a merge brings into the table are fields in order. -/
theorem Merges.brings {op : Operation} (h : op.Merges) : op.Brings Field.Labelled := by
  cases op with
  | absorb a b => exact trivial
  | replace id fields => exact h
  | _ => exact h.elim

theorem Brings.mono {P Q : List Field → Prop} {op : Operation} (h : op.Brings P)
    (hPQ : ∀ fields, P fields → Q fields) : op.Brings Q := by
  cases op with
  | register base fields => exact hPQ fields h
  | pin name fields => exact hPQ fields h
  | replace id fields => exact hPQ fields h
  | _ => exact h

instance (n : Nat) : (op : Operation) → Decidable (op.Known n)
  | .reserve _ | .fold => instDecidableTrue
  | .register _ fields | .pin _ fields => inferInstanceAs (Decidable (Field.KnownAll n fields))
  | .absorb a b | .mergeClasses a b => inferInstanceAs (Decidable (a < n ∧ b < n))
  | .replace id fields => inferInstanceAs (Decidable (id < n ∧ Field.KnownAll n fields))
  | .mergeSlots a b => inferInstanceAs (Decidable (a.Known n ∧ b.Known n))
  | .mergeAll slots => inferInstanceAs (Decidable (∀ s ∈ slots, s.Known n))

instance : (op : Operation) → Decidable op.Pins
  | .pin _ _ => instDecidableTrue
  | .reserve _ | .register _ _ | .absorb _ _ | .replace _ _ | .mergeClasses _ _
  | .mergeSlots _ _ | .mergeAll _ | .fold => instDecidableFalse

end Operation

namespace ClassTable

/-- The table after a sequence of operations. -/
def run (t : ClassTable) (ops : List Operation) : ClassTable :=
  ops.foldl Operation.apply t

/-- A sequence that uses only numbers given out before and pins at most one
    class. -/
def Legal : ClassTable → List Operation → Prop
  | _, [] => True
  | t, op :: rest =>
      op.Known t.entries.size ∧ (op.Pins → t.pinned = none) ∧ Legal (op.apply t) rest

/-- Legality is decided by running the sequence. -/
instance decidableLegal : (t : ClassTable) → (ops : List Operation) → Decidable (t.Legal ops)
  | _, [] => instDecidableTrue
  | t, op :: rest =>
      have := decidableLegal (op.apply t) rest
      inferInstanceAs (Decidable (op.Known t.entries.size ∧ (op.Pins → t.pinned = none) ∧
        Legal (op.apply t) rest))

/-- The tables that a new one can become, by operations with numbers given out
    before. Classes may be pinned more than once, each time a new one. -/
inductive Reachable : ClassTable → Prop where
  | empty : Reachable .empty
  | apply {t : ClassTable} (h : Reachable t) (op : Operation) (hk : op.Known t.entries.size) :
      Reachable (op.apply t)

/-- A legal sequence leads to a table that can be reached, whatever it starts from. -/
theorem Reachable.run {t : ClassTable} (h : t.Reachable) {ops : List Operation}
    (hl : t.Legal ops) : (t.run ops).Reachable := by
  induction ops generalizing t with
  | nil => exact h
  | cons op rest ih => exact ih (h.apply op hl.1) hl.2.2

@[simp]
theorem run_nil (t : ClassTable) : t.run [] = t := rfl

@[simp]
theorem run_cons (t : ClassTable) (op : Operation) (ops : List Operation) :
    t.run (op :: ops) = (op.apply t).run ops := rfl

@[simp]
theorem run_append (t : ClassTable) (xs ys : List Operation) :
    t.run (xs ++ ys) = (t.run xs).run ys := by
  simp only [run, List.foldl_append]

/-- A sequence is legal if its first part is, and the second is legal for the table that
    the first leaves. -/
theorem legal_append (t : ClassTable) (xs ys : List Operation) :
    t.Legal (xs ++ ys) ↔ t.Legal xs ∧ (t.run xs).Legal ys := by
  induction xs generalizing t with
  | nil => simp only [List.nil_append, Legal, true_and, run_nil]
  | cons op rest ih =>
      simp only [List.cons_append, Legal, ih, run_cons, and_assoc]

end ClassTable

/-! ### Journals -/

/-- The operations that making two classes one consists of. -/
abbrev MergeJournal := ClassTable → ClassId → ClassId → List Operation

namespace Shape

/-- The operations of a join of two shapes: those of the classes that meet
    under the lists. -/
def joinOps (ops : MergeJournal) (t : ClassTable) : Shape → Shape → List Operation
  | .list x _, .list y _ => joinOps ops t x y
  | .ref a, .ref b => ops t a b
  | _, _ => []

end Shape

namespace Field

/-- The operations of taking one field into others. -/
def uniteOps (ops : MergeJournal) (fields : List Field) (t : ClassTable) (f : Field) :
    List Operation :=
  match find? fields f.key with
  | some g => g.slot.shape.joinOps ops t f.slot.shape
  | none => []

/-- The operations of taking fields into others, one after the other. -/
def uniteAllOps (merge : ClassMerge) (ops : MergeJournal) (fields : List Field)
    (t : ClassTable) : List Field → List Operation
  | [] => []
  | f :: rest =>
      uniteOps ops fields t f ++
        uniteAllOps merge ops (uniteWith merge fields t f).1 (uniteWith merge fields t f).2 rest

/-- The operations of uniting the fields of two classes. -/
def unionOps (merge : ClassMerge) (ops : MergeJournal) (t : ClassTable) (as bs : List Field) :
    List Operation :=
  uniteAllOps merge ops (as.foldl insert []) t bs

end Field

namespace ClassTable

/-- The operations of a merge with at most `n` merges nested. -/
def mergeOpsUpTo : Nat → MergeJournal
  | 0, _, _, _ => []
  | n + 1, t, a, b =>
      let a := t.resolve a
      let b := t.resolve b
      if a = b then []
      else
        match t.find? a, t.find? b with
        | some ca, some cb =>
            let (survivor, t') := t.absorb a b
            .absorb a b :: (Field.unionOps (mergeUpTo n) (mergeOpsUpTo n) t' ca.fields cb.fields ++
              [.replace survivor (Field.unionWith (mergeUpTo n) t' ca.fields cb.fields).1])
        | _, _ => []

/-- The operations of a merge. -/
def mergeOps : MergeJournal := fun t a b => mergeOpsUpTo t.size t a b

/-- The operations of joining a slot with those that follow it. -/
def joinOntoOps (t : ClassTable) (acc : Slot) : List Slot → List Operation
  | [] => []
  | s :: rest =>
      acc.shape.joinOps mergeOps t s.shape ++
        joinOntoOps (t.joinSlots acc s).2 (t.joinSlots acc s).1 rest

/-- The operations of joining a row of slots. -/
def joinAllOps (t : ClassTable) : List Slot → List Operation
  | [] => []
  | s :: rest => joinOntoOps t s rest

end ClassTable

/-! ### Playing a journal back -/

/-- A journal is right if it leads where the merge leads. -/
def Records (ops : MergeJournal) (merge : ClassMerge) : Prop :=
  ∀ t a b, t.run (ops t a b) = (merge t a b).2

/-- Shapes that exclude each other meet without any class being merged. -/
theorem Shape.joinOps_of_clash (ops : MergeJournal) (t : ClassTable) {x y : Shape}
    (h : Clash x y) : x.joinOps ops t y = [] := by
  rcases h with ⟨_, _, h⟩
  cases x <;> cases y <;> first | rfl | simp [kind] at h

/-- The journal of a join leads where the join leads, provided that this is so where two
    classes meet. -/
theorem Shape.run_joinOps {ops : MergeJournal} {merge : ClassMerge} (h : Records ops merge)
    (t : ClassTable) (x y : Shape) : t.run (x.joinOps ops t y) = (x.joinWith merge t y).2 := by
  -- The cases are those of the join: null on either side, two lists, two classes, a clash.
  -- Only two classes have a journal that is not empty.
  refine joinWith_induction (P := fun x y r => t.run (x.joinOps ops t y) = r.2)
    ?_ ?_ rfl rfl (fun _ => rfl) (fun _ _ _ _ ih => ih) (h t) ?_ x y
  · intro y
    cases y <;> rfl
  · intro x
    cases x <;> rfl
  · intro x y hclash
    rw [joinOps_of_clash ops t hclash]
    rfl

theorem Field.run_uniteOps {ops : MergeJournal} {merge : ClassMerge} (h : Records ops merge)
    (fields : List Field) (t : ClassTable) (f : Field) :
    t.run (uniteOps ops fields t f) = (uniteWith merge fields t f).2 := by
  unfold uniteOps uniteWith
  cases find? fields f.key with
  | none => rfl
  | some g => exact Shape.run_joinOps h t g.slot.shape f.slot.shape

/-- The journal goes through the fields in the order of the union, each step from the
    table that the one before it left. -/
theorem Field.run_uniteAllOps {ops : MergeJournal} {merge : ClassMerge} (h : Records ops merge)
    (fields : List Field) (t : ClassTable) (bs : List Field) :
    t.run (uniteAllOps merge ops fields t bs) = (uniteAllWith merge fields t bs).2 := by
  induction bs generalizing fields t with
  | nil => rfl
  | cons f rest ih =>
      rw [uniteAllOps, ClassTable.run_append, run_uniteOps h, ih]
      rfl

theorem Field.run_unionOps {ops : MergeJournal} {merge : ClassMerge} (h : Records ops merge)
    (t : ClassTable) (as bs : List Field) :
    t.run (unionOps merge ops t as bs) = (unionWith merge t as bs).2 :=
  run_uniteAllOps h _ t bs

namespace ClassTable

/-- The bound on nested merges is the same for the journal and for the merge, so one
    induction on it goes through both. -/
theorem run_mergeOpsUpTo (n : Nat) : Records (mergeOpsUpTo n) (mergeUpTo n) := by
  induction n with
  | zero =>
      intro t a b
      rfl
  | succ n ih =>
      intro t a b
      simp only [mergeOpsUpTo, mergeUpTo]
      by_cases hab : t.resolve a = t.resolve b
      · rw [if_pos hab, if_pos hab, run_nil]
      · rw [if_neg hab, if_neg hab]
        -- A number that stands for no class is not merged with anything.
        rcases t.find? (t.resolve a) with _ | ca <;> rcases t.find? (t.resolve b) with _ | cb
        · rfl
        · rfl
        · rfl
        · simp only [run_cons, run_append, run_nil, Operation.apply]
          -- The first class has given way by then, so the union runs in a table with one
          -- class less.
          rw [Field.run_unionOps ih]

/-- The journal of a merge leads where the merge leads. -/
theorem run_mergeOps : Records mergeOps mergeClasses :=
  fun t a b => run_mergeOpsUpTo t.size t a b

theorem run_joinOntoOps (t : ClassTable) (acc : Slot) (slots : List Slot) :
    t.run (t.joinOntoOps acc slots) = (t.joinOnto acc slots).2 := by
  induction slots generalizing t acc with
  | nil => rfl
  | cons s rest ih =>
      rw [joinOntoOps, run_append, Shape.run_joinOps run_mergeOps]
      exact ih (t.joinSlots acc s).2 (t.joinSlots acc s).1

/-- The journal of a row of joins leads where the joins lead. -/
theorem run_joinAllOps (t : ClassTable) (slots : List Slot) :
    t.run (t.joinAllOps slots) = (t.joinAll slots).2 := by
  cases slots with
  | nil => rfl
  | cons s rest => exact run_joinOntoOps t s rest

end ClassTable

/-! ### What a journal consists of -/

/-- Only where two classes meet is there anything to do, and that is a merge. -/
theorem Shape.merges_joinOps {ops : MergeJournal} (h : ∀ t a b, ∀ op ∈ ops t a b, op.Merges)
    (t : ClassTable) (x y : Shape) : ∀ op ∈ x.joinOps ops t y, op.Merges := by
  induction x generalizing y with
  | primitive p => cases y <;> exact fun _ hop => absurd hop List.not_mem_nil
  | list x n ih =>
      cases y with
      | primitive q => exact fun _ hop => absurd hop List.not_mem_nil
      | list y m => exact ih y
      | ref b => exact fun _ hop => absurd hop List.not_mem_nil
  | ref a =>
      cases y with
      | primitive q => exact fun _ hop => absurd hop List.not_mem_nil
      | list y m => exact fun _ hop => absurd hop List.not_mem_nil
      | ref b => exact h t a b

theorem Field.merges_uniteOps {ops : MergeJournal} (h : ∀ t a b, ∀ op ∈ ops t a b, op.Merges)
    (fields : List Field) (t : ClassTable) (f : Field) :
    ∀ op ∈ uniteOps ops fields t f, op.Merges := by
  unfold uniteOps
  cases find? fields f.key with
  | none => exact fun _ hop => absurd hop List.not_mem_nil
  | some g => exact Shape.merges_joinOps h t _ _

theorem Field.merges_uniteAllOps {ops : MergeJournal} {merge : ClassMerge}
    (h : ∀ t a b, ∀ op ∈ ops t a b, op.Merges) (fields : List Field) (t : ClassTable)
    (bs : List Field) : ∀ op ∈ uniteAllOps merge ops fields t bs, op.Merges := by
  induction bs generalizing fields t with
  | nil => exact fun _ hop => absurd hop List.not_mem_nil
  | cons f rest ih =>
      intro op hop
      rcases List.mem_append.mp hop with hop | hop
      · exact merges_uniteOps h fields t f op hop
      · exact ih _ _ op hop

namespace ClassTable

/-- A merge is made of the two primitive operations, whatever it meets on its way. -/
theorem merges_mergeOpsUpTo (n : Nat) :
    ∀ t a b, ∀ op ∈ mergeOpsUpTo n t a b, op.Merges := by
  induction n with
  | zero => exact fun _ _ _ _ hop => absurd hop List.not_mem_nil
  | succ n ih =>
      intro t a b op hop
      simp only [mergeOpsUpTo] at hop
      split at hop
      · exact absurd hop List.not_mem_nil
      · split at hop
        · -- The first operation is the class giving way, the last puts the united fields in
          -- place, and what is between them is for the induction.
          rcases List.mem_cons.mp hop with rfl | hop
          · exact trivial
          · rcases List.mem_append.mp hop with hop | hop
            · exact Field.merges_uniteAllOps ih _ _ _ op hop
            · rw [List.mem_singleton.mp hop]
              exact Field.labelled_unionWith _ _ _
        · exact absurd hop List.not_mem_nil

theorem merges_joinOntoOps (t : ClassTable) (acc : Slot) (slots : List Slot) :
    ∀ op ∈ t.joinOntoOps acc slots, op.Merges := by
  induction slots generalizing t acc with
  | nil => exact fun _ hop => absurd hop List.not_mem_nil
  | cons s rest ih =>
      intro op hop
      rcases List.mem_append.mp hop with hop | hop
      · exact Shape.merges_joinOps (fun t => merges_mergeOpsUpTo t.size t) t _ _ op hop
      · exact ih _ _ op hop

/-- Joining a row of slots takes nothing but merges. -/
theorem merges_joinAllOps (t : ClassTable) (slots : List Slot) :
    ∀ op ∈ t.joinAllOps slots, op.Merges := by
  cases slots with
  | nil => exact fun _ hop => absurd hop List.not_mem_nil
  | cons s rest => exact merges_joinOntoOps t s rest

end ClassTable

end DartModels
