import DartModels.Dart.Source
import DartModels.Proofs.Names
import DartModels.Proofs.Runs
import Mathlib.Data.List.Nodup

/-!
# The lowered table

Every class of a catalog is written once, and all that it refers to is written
too.

A catalog is a folded table with an order. The generated program fails to
compile if the order misses a class that another one mentions, or has a class
twice, and what was done to the table before must not matter: classes may have
given way to each other in any sequence, and the root may be one of them.

So nothing is assumed of the table but that operations have led to it. Folding
leaves it well-formed, without equal classes, and the rest follows from there. A
number that occurs in a field is live, so it is in the order, and it is also the
number under which its class is found, so the name that is printed for it is the
name of that class.

## Main definitions

* `Lowerable`: What is needed of a table and its root.

## Theorems

* `exists_lowerable`: The catalog of a document comes from such a table.
* `Lowerable.mem_order_iff`: The order consists of the live classes.
* `Lowerable.order_eq`: The root comes last, and the others by their numbers.
* `Lowerable.mem_classes_iff`, `Lowerable.nodup_classes`: The classes to be
  written are the live ones, each once.
* `Lowerable.nodup_signatures`: No two of them are equal.
* `Lowerable.ref_listed`: What they refer to is among them.
* `ofTable_lowered`: All this, for every table that operations lead to.
-/

namespace DartModels

namespace Catalog

variable {t : ClassTable} {root i : ClassId} {c : ClassDef}

/-- The table of a catalog is the folded one. -/
theorem table_ofTable (t : ClassTable) (root : ClassId) :
    (ofTable t root).table = t.foldDuplicates := rfl

/-- The order, as the other classes followed by the root. -/
theorem order_ofTable_eq (t : ClassTable) (root : ClassId) : (ofTable t root).order =
    (t.foldDuplicates.classes.map ClassDef.id).filter (· ≠ (ofTable t root).root) ++
      [(ofTable t root).root] := rfl

/-- What is needed of a table for all that follows. -/
structure Lowerable (t : ClassTable) (root : ClassId) : Prop where
  wellFormed : t.foldDuplicates.WellFormed
  nodup : (t.foldDuplicates.classes.map ClassDef.signature).Nodup
  root_lt : root < t.foldDuplicates.entries.size

/-- Folding gives all of it, for any root whose number was given out. -/
theorem lowerable_of_wellFormed (h : t.WellFormed) (hroot : root < t.entries.size) :
    Lowerable t root := by
  rcases (ClassTable.foldable_evolves h.linked).foldDuplicates h
    (ClassTable.Evolves.refl h.linked) with ⟨hw, hevolves⟩
  rcases h.foldDuplicates_eq_iterate with ⟨_, _, _, hnil⟩
  exact ⟨hw, ClassTable.duplicates_empty_eq_nil_iff.mp hnil,
    Nat.lt_of_lt_of_le hroot hevolves.size_le⟩

/-- The catalog of a document is made of such a table, with the pinned class as its
    root. -/
theorem exists_lowerable {o : Options} {name : String} {v : Json} {catalog : Catalog}
    (h : ofDocument o name v = .ok catalog) :
    ∃ t root, catalog = ofTable t root ∧ Lowerable t root := by
  rcases ofDocument_eq_ok h with ⟨root, t, hr, hl, _, rfl⟩
  rcases hl.wellFormed.pinned_live root (Inference.pinned_observeRoot hr) with ⟨c, hc⟩
  exact ⟨t, root, rfl, lowerable_of_wellFormed hl.wellFormed (ClassTable.lt_of_at? hc)⟩

/-- What the root stands for is live after folding. -/
theorem Lowerable.root_live (h : Lowerable t root) :
    ∃ c, t.foldDuplicates.at? (ofTable t root).root = some c :=
  h.wellFormed.linked.find? h.root_lt

/-- The order has the numbers of the live classes. -/
theorem Lowerable.mem_order_iff (h : Lowerable t root) :
    i ∈ (ofTable t root).order ↔ ∃ c, t.foldDuplicates.at? i = some c := by
  have hid : i ∈ t.foldDuplicates.classes.map ClassDef.id ↔
      ∃ c, t.foldDuplicates.at? i = some c := by
    constructor
    · intro hmem
      rcases List.mem_map.mp hmem with ⟨c, hc, rfl⟩
      exact ⟨c, h.wellFormed.toValid.at?_id hc⟩
    · rintro ⟨c, hc⟩
      exact List.mem_map.mpr ⟨c, ClassTable.mem_classes_iff.mpr ⟨i, hc⟩, h.wellFormed.id_eq i c hc⟩
  rw [order_ofTable_eq, List.mem_append, List.mem_filter, List.mem_singleton, hid,
    decide_eq_true_eq]
  constructor
  · rintro (⟨hlive, _⟩ | rfl)
    · exact hlive
    · exact h.root_live
  · intro hlive
    -- The root is taken out of its place and put at the end, so it is there once.
    by_cases hroot : i = (ofTable t root).root
    · exact Or.inr hroot
    · exact Or.inl ⟨hlive, hroot⟩

/-- All classes but the root come in the order of their numbers. -/
theorem Lowerable.order_eq (h : Lowerable t root) : ∃ others,
    (ofTable t root).order = others ++ [(ofTable t root).root] ∧ others.Pairwise (· < ·) ∧
      (ofTable t root).root ∉ others := by
  refine ⟨_, order_ofTable_eq t root, List.Pairwise.filter _ ?_, fun hmem => ?_⟩
  · exact List.pairwise_map.mpr h.wellFormed.toValid.classes_sorted
  · exact of_decide_eq_true (List.mem_filter.mp hmem).2 rfl

/-- No class is listed twice. -/
theorem Lowerable.nodup_order (h : Lowerable t root) : (ofTable t root).order.Nodup := by
  rcases h.order_eq with ⟨others, heq, hsorted, hnot⟩
  rw [heq, List.nodup_append]
  -- The others are in strict order, and the root is none of them.
  refine ⟨hsorted.imp Nat.ne_of_lt, List.nodup_singleton _, fun i hi j hj hij => ?_⟩
  rw [List.mem_singleton.mp hj] at hij
  exact hnot (hij ▸ hi)

/-- What is written are the live classes. -/
theorem Lowerable.mem_classes_iff (h : Lowerable t root) :
    c ∈ (ofTable t root).classes ↔ ∃ i, t.foldDuplicates.at? i = some c := by
  have hfind : ∀ {i c}, t.foldDuplicates.at? i = some c → (ofTable t root).table.find? i = some c :=
    fun hc => by
      rw [table_ofTable, ClassTable.find?_eq_at?, ClassTable.resolve_of_at? hc, hc]
  simp only [classes, List.mem_filterMap, h.mem_order_iff]
  constructor
  · rintro ⟨i, ⟨d, hd⟩, hc⟩
    rw [hfind hd] at hc
    exact ⟨i, Option.some.inj hc ▸ hd⟩
  · rintro ⟨i, hi⟩
    exact ⟨i, ⟨c, hi⟩, hfind hi⟩

/-- The classes come in the order of the numbers. -/
theorem Lowerable.map_id_classes (h : Lowerable t root) :
    (ofTable t root).classes.map ClassDef.id = (ofTable t root).order := by
  -- Live classes stand where their numbers say.
  have hlive : ∀ i ∈ (ofTable t root).order,
      ((ofTable t root).table.find? i).map ClassDef.id = some i := by
    intro i hi
    rcases h.mem_order_iff.mp hi with ⟨c, hc⟩
    rw [table_ofTable, ClassTable.find?_eq_at?, ClassTable.resolve_of_at? hc, hc, Option.map_some,
      h.wellFormed.id_eq i c hc]
  rw [classes, List.map_filterMap, List.filterMap_congr hlive, List.filterMap_some]

/-- No class is written twice. -/
theorem Lowerable.nodup_classes (h : Lowerable t root) : (ofTable t root).classes.Nodup := by
  refine List.Nodup.of_map ClassDef.id ?_
  rw [h.map_id_classes]
  exact h.nodup_order

/-- No two classes that are written have the same signature. -/
theorem Lowerable.nodup_signatures (h : Lowerable t root) :
    ((ofTable t root).classes.map ClassDef.signature).Nodup := by
  have hmem : ∀ {c}, c ∈ (ofTable t root).classes → c ∈ t.foldDuplicates.classes :=
    fun hc => ClassTable.mem_classes_iff.mpr (h.mem_classes_iff.mp hc)
  -- Folding has left no two live classes with the same signature.
  exact h.nodup_classes.map_on fun c hc d hd hsig =>
    List.inj_on_of_nodup_map h.nodup (hmem hc) (hmem hd) hsig

/-- A reference leads to a class that is written. -/
theorem Lowerable.ref_listed (h : Lowerable t root) (hc : c ∈ (ofTable t root).classes)
    {f : Field} (hf : f ∈ c.fields) (hi : i ∈ f.slot.shape.ids) :
    ∃ d ∈ (ofTable t root).classes, d.id = i ∧ (ofTable t root).table.find? i = some d := by
  rcases h.mem_classes_iff.mp hc with ⟨j, hj⟩
  rcases h.wellFormed.refs_live j c hj f hf i hi with ⟨d, hd⟩
  refine ⟨d, h.mem_classes_iff.mpr ⟨i, hd⟩, h.wellFormed.id_eq i d hd, ?_⟩
  rw [table_ofTable, ClassTable.find?_eq_at?, ClassTable.resolve_of_at? hd, hd]

/-- The lowered table of any table that operations have led to, with any number
    given out as its root: the order has each live class once, the root last and
    the others by their numbers; the classes that are written are those of the
    order, and no two are equal; and wherever a field refers to a class, that
    class is written, and the name printed for it is the one it is declared
    under. -/
theorem ofTable_lowered (h : t.Reachable) (hroot : root < t.entries.size) :
    (∀ i, i ∈ (ofTable t root).order ↔ ∃ c, (ofTable t root).table.at? i = some c) ∧
      (ofTable t root).order.Nodup ∧
      (∃ others, (ofTable t root).order = others ++ [(ofTable t root).table.resolve root] ∧
        others.Pairwise (· < ·)) ∧
      (ofTable t root).classes.map ClassDef.id = (ofTable t root).order ∧
      ((ofTable t root).classes.map ClassDef.signature).Nodup ∧
      ∀ c ∈ (ofTable t root).classes, ∀ f ∈ c.fields, ∀ i ∈ f.slot.shape.ids,
        ∃ d ∈ (ofTable t root).classes, d.id = i ∧
          ∀ o, (Dart.typeOf o (ofTable t root) (.ref i)).render = d.name ∧
            (Dart.declaration o (ofTable t root) d).head? =
              some ⟨0, "class " ++ d.name ++ " " ++ "\x7b"⟩ := by
  have hl := lowerable_of_wellFormed h.wellFormed hroot
  refine ⟨fun i => hl.mem_order_iff, hl.nodup_order, ?_, hl.map_id_classes, hl.nodup_signatures,
    fun c hc f hf i hi => ?_⟩
  · rcases hl.order_eq with ⟨others, heq, hsorted, _⟩
    exact ⟨others, heq, hsorted⟩
  · rcases hl.ref_listed hc hf hi with ⟨d, hd, hid, hfind⟩
    refine ⟨d, hd, hid, fun o => ⟨?_, rfl⟩⟩
    rw [Dart.typeOf, nameOf, hfind]
    rfl

/-- A class with the fields of the pinned one, and one that refers to it. -/
def rootTwinOps : List Operation :=
  [.register "A" [⟨"x", "x", ⟨.primitive .int, false⟩⟩],
    .register "B" [⟨"a", "a", ⟨.list (.ref 0) false, false⟩⟩],
    .pin "R" [⟨"x", "x", ⟨.primitive .int, false⟩⟩]]

/-- The first gives way to the pinned class, which is then the last of the
    order also if the first was asked for. -/
theorem ofTable_lowered_rootTwin : (ClassTable.empty.run rootTwinOps).Reachable ∧
    0 < (ClassTable.empty.run rootTwinOps).entries.size ∧
    ∃ others, (ofTable (ClassTable.empty.run rootTwinOps) 0).order = others ++ [2] ∧
      others.Pairwise (· < ·) := by
  have hreach : (ClassTable.empty.run rootTwinOps).Reachable :=
    ClassTable.Reachable.empty.run (by decide +kernel)
  have hroot : 0 < (ClassTable.empty.run rootTwinOps).entries.size := by decide +kernel
  rcases (ofTable_lowered hreach hroot).2.2.1 with ⟨others, heq, hsorted⟩
  have htwo : (ofTable (ClassTable.empty.run rootTwinOps) 0).table.resolve 0 = 2 := by
    decide +kernel
  exact ⟨hreach, hroot, others, htwo ▸ heq, hsorted⟩

end Catalog

end DartModels
