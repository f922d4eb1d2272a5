import DartModels.Proofs.Descent

/-!
# Discarded fields

The field lists that are set aside on the way to the final table.

A field list stands for what some objects have shown. Whenever a class gets
other fields, or an object is taken for one of a class that is there already,
a list is dropped, on the assumption that the class has it all in some form.
Whether that is so shows only at the end. The lists are therefore written down,
with the number they were for, and compared with the final table later on.

What makes the assumption fail is that a merge unites copies of two field lists
and puts the result in place at the end. If a merge nested in it has meanwhile
put other fields in place for the same class, then those are lost.

## Main definitions

* `ClassTable.lapsed`: What the classes had that gave way between two tables.
* `Operation.discards`, `ClassTable.discards`: What is dropped by an operation,
  and by a sequence of them.
-/

namespace DartModels

open ClassTable

namespace ClassTable

/-- The field lists of the classes that gave way on the way from one table to
    another. -/
def lapsed (t t' : ClassTable) : List (ClassId × List Field) :=
  (t.classes.filter fun c => t'.resolve c.id ≠ c.id).map fun c => (c.id, c.fields)

end ClassTable

/-- The field lists that an operation sets aside although they were those of a
    class: that of an object which is taken for one of a known class, the one
    that a replacement writes over, and those of the classes that give way to
    equal ones. What a class had that gives way in the first half of a merge is
    not among them, since the second half is there to make up for it. -/
def Operation.discards (t : ClassTable) : Operation → List (ClassId × List Field)
  | .register _ fields =>
      match t.lookup? (t.canonical fields) with
      | some id => [(id, fields)]
      | none => []
  | .replace id fields =>
      ((t.find? id).toList.map fun c => (c.id, c.fields)) ++
        lapsed (t.install id fields) (t.replaceFields id fields).2
  | .fold => lapsed t t.foldDuplicates
  | _ => []

namespace ClassTable

variable {t t' : ClassTable} {i : ClassId}

/-- The field lists that a sequence of operations sets aside. -/
def discards : ClassTable → List Operation → List (ClassId × List Field)
  | _, [] => []
  | t, op :: rest => op.discards t ++ (op.apply t).discards rest

/-- What a sequence sets aside is what its parts do, the second part in the table that
    the first leaves. -/
theorem discards_append (t : ClassTable) (xs ys : List Operation) :
    t.discards (xs ++ ys) = t.discards xs ++ (t.run xs).discards ys := by
  induction xs generalizing t with
  | nil => rfl
  | cons op rest ih =>
      rw [List.cons_append, discards, discards, ih, run_cons, List.append_assoc]

/-- A class whose number leads elsewhere is among those that gave way. -/
theorem mem_lapsed (h : t.Valid) {c : ClassDef} (hc : t.at? i = some c)
    (hi : t'.resolve i ≠ i) : (i, c.fields) ∈ lapsed t t' := by
  refine List.mem_map.mpr ⟨c, List.mem_filter.mpr ⟨mem_classes_iff.mpr ⟨i, hc⟩, ?_⟩, ?_⟩
  · rw [h.id_eq i c hc]
    exact decide_eq_true hi
  · rw [h.id_eq i c hc]

/-- A merge discards what uniting the fields discards, and what the replacement
    does. -/
theorem Stages.discards_eq {n : Nat} {a b : ClassId} {ca cb : ClassDef} {s : ClassId}
    {t₁ t₂ : ClassTable} {fields : List Field} (hs : Stages n t a b ca cb s t₁ t₂ fields) :
    t.discards (mergeOpsUpTo (n + 1) t a b) =
      t₁.discards (Field.unionOps (mergeUpTo n) (mergeOpsUpTo n) t₁ ca.fields cb.fields) ++
        (Operation.replace s fields).discards t₂ := by
  -- The first half of the merge sets nothing aside, so only the union and the replacement
  -- are left.
  rw [hs.ops_eq, discards, Operation.apply, hs.absorb_eq, discards_append, hs.run_unionOps,
    discards, discards, List.append_nil]
  rfl

end ClassTable

end DartModels
