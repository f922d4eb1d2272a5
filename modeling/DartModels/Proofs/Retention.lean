import DartModels.Proofs.Conformance
import DartModels.Proofs.Discards

/-!
# Retention

What a merge keeps of the fields that it unites.

Whether something is lost cannot be seen at the merge. A nested merge may write
to the class whose fields are being united, and the union is written over that
afterwards; what was lost may also come back from elsewhere. So one looks back
from the final table. Fields are kept if the class that their number stands for
in the end covers them. If all classes after a step are kept, and what the step
discards is kept, then all classes before it are kept as well. Going back over a
run, only the discarded lists remain to be asked about, and for every one of
them the answer can be had from the final table.

That the union covers both sides is the forward part of the argument. It also is
stated in the final table, since a field may refer to a class by a number that
has become another one by then.

## Main definitions

* `ClassTable.Kept`, `ClassTable.AllKept`: Fields that the final table covers.
* `Grows`: How fields grow when others are taken in.
* `Retains`: A way of merging loses nothing but what it discards.

## Theorems

* `Shape.within_joinWith`: A join lies above both of its sides.
* `Field.covers_unionWith`: United fields cover both sides.
* `AllKept.of_replaceFields`: Going back over a replacement.
* `ClassTable.retains_mergeUpTo`: Merging loses nothing but what it discards.
-/

namespace DartModels

open ClassTable

namespace ClassTable

variable {t t' z : ClassTable} {D : Set ClassId} {i j : ClassId} {fields fields' : List Field}

/-- Fields are kept for a number in the table `z` if the class it stands for
    there covers them. Classes of `D` need not. -/
def Kept (z : ClassTable) (D : Set ClassId) (i : ClassId) (fields : List Field) : Prop :=
  z.resolve i ∈ D ∨ ∃ c, z.find? i = some c ∧ z.Covers fields c.fields

/-- The fields of every class are kept. -/
def AllKept (z : ClassTable) (D : Set ClassId) (t : ClassTable) : Prop :=
  ∀ i c, t.at? i = some c → z.Kept D i c.fields

/-- Fields that are covered by kept ones are kept. -/
theorem Kept.of_covers (h : z.Kept D i fields') (hc : z.Covers fields fields') :
    z.Kept D i fields :=
  h.imp_right fun ⟨c, hfind, hc'⟩ => ⟨c, hfind, hc.trans hc'⟩

/-- What is kept depends neither on the number of the class that is used nor on those in
    the fields. -/
theorem Kept.congr (hl : z.Linked) (h : z.Kept D i fields) (hi : z.resolve j = z.resolve i)
    (hf : z.canonical fields' = z.canonical fields) : z.Kept D j fields' := by
  rcases h with hd | ⟨c, hfind, hc⟩
  · exact Or.inl (hi ▸ hd)
  · refine Or.inr ⟨c, ?_, hc.congr hl hf rfl⟩
    rw [find?_eq_at?, hi]
    exact hfind

/-- If the classes of a later table are kept, then so are those of an earlier
    one that are still there. -/
theorem AllKept.of_descends (h : z.AllKept D t') (hz : z.Linked) (hv : t.Valid) (hv' : t'.Valid)
    (hd : Descends t t') (he : Evolves t' z)
    (hgone : ∀ i c, t.at? i = some c → t'.resolve i ≠ i → z.Kept D i c.fields) :
    z.AllKept D t := by
  intro i c hc
  -- A class that is still there has its fields up to the numbers in them.
  by_cases hi : t'.resolve i = i
  · have hlt : i < t'.entries.size := hd.entries_size ▸ lt_of_at? hc
    rcases hv'.linked.find? hlt with ⟨c', hc'⟩
    rw [find?_eq_at?, hi] at hc'
    rcases hd.at?_eq_some i c' hc' with ⟨d, hd', heq⟩
    rw [hc, Option.some.injEq] at hd'
    subst hd'
    have hk : Field.KnownAll t'.entries.size c.fields := hd.entries_size ▸ hv.known i c hc
    refine (h i c' hc').congr hz rfl ?_
    rw [← he.canonical_canonical hk, ← heq, he.canonical_canonical (hv'.known i c' hc')]
  · exact hgone i c hc hi

/-- The classes before a replacement are kept, and so are the fields that were
    put in place. -/
theorem AllKept.of_replaceFields (hz : z.Linked) (hw : t.WellFormed) (hi : i < t.entries.size)
    (hk : Field.KnownAll t.entries.size fields) (he : Evolves (t.replaceFields i fields).2 z)
    (hdisc : ∀ d ∈ (Operation.replace i fields).discards t, z.Kept D d.1 d.2)
    (h : z.AllKept D (t.replaceFields i fields).2) :
    z.AllKept D t ∧ z.Kept D i fields := by
  have hc := hw.continues_install hi hk
  have hrep := hw.replaceFields hi hk
  -- After the fields are put in place, a twin may give way. It was discarded then.
  have hinstall : z.AllKept D (t.install i fields) := by
    refine h.of_descends hz hc.wellFormed.toValid hrep.wellFormed.toValid
      (hw.descends_replaceFields hi hk) he fun j c hj hne => ?_
    exact hdisc _ (List.mem_append_right _ (mem_lapsed hc.wellFormed.toValid hj hne))
  have hall : Evolves t z := hrep.evolves.trans hw.linked he
  have hr := hw.linked.rewrites_install hi fields
  rcases hw.linked.find? hi with ⟨c, hat⟩
  constructor
  · intro j d hd
    -- Only the fields written over are gone, and these were discarded.
    by_cases hj : j = t.resolve i
    · subst hj
      have hdc : d = c := Option.some.inj (hd.symm.trans hat)
      have hid := hw.id_eq _ d hd
      have hmem : (d.id, d.fields) ∈ (Operation.replace i fields).discards t := by
        refine List.mem_append_left _ (List.mem_map.mpr ⟨d, ?_, rfl⟩)
        rw [hat, hdc]
        exact List.mem_singleton.mpr rfl
      have hkept := hdisc _ hmem
      rwa [hid] at hkept
    · have hd' : (t.install i fields).at? j = some d :=
        hr.at?_eq_some.mpr ⟨d, hd, by rw [onlyAt_of_ne _ hj]⟩
      exact hinstall j d hd'
  · have hnew : (t.install i fields).at? (t.resolve i) =
        some { c with fields := t.canonical fields } :=
      hr.at?_eq_some.mpr ⟨c, hat, by rw [onlyAt_self]⟩
    refine (hinstall _ _ hnew).congr hz (hall.resolve_resolve i hi).symm ?_
    exact (hall.canonical_canonical hk).symm

/-! ### Distinct keys -/

/-- Whether keys are distinct does not depend on the numbers in the fields. -/
theorem numberless_nodup_keys : Numberless fun fields => (fields.map Field.key).Nodup := by
  intro f fields
  simp only [List.map_map]
  rfl

/-- Changes that bring no new fields leave keys distinct. -/
theorem Keyed.descends (h : t.Keyed) (hd : Descends t t') : t'.Keyed :=
  Each.descends (P := fun fields => (fields.map Field.key).Nodup) h numberless_nodup_keys hd

/-- Merging leaves the keys of every class distinct. -/
theorem Keyed.run {ops : List Operation} (h : t.Keyed) (hw : t.WellFormed) (hl : t.Legal ops)
    (hm : ∀ op ∈ ops, op.Merges) : (t.run ops).Keyed :=
  Each.run (P := fun fields => (fields.map Field.key).Nodup) h numberless_nodup_keys hw hl
    fun op hop => (hm op hop).brings.mono fun _ hfields => hfields.keys

end ClassTable

/-! ### Joins lie above both sides -/

section Joining

variable {n : Nat} {ops : MergeJournal} {merge : ClassMerge} {t z : ClassTable}

/-- Both shapes are within what they are joined to, as a later table sees the classes in
    them. By induction on the join: where classes meet they are one from then on. -/
theorem Shape.within_joinWith (h : Lawful n ops merge) (ht : t.WellFormed) (hn : t.size ≤ n)
    {x y : Shape} (hx : ∀ id ∈ x.ids, id < t.entries.size) (hy : ∀ id ∈ y.ids, id < t.entries.size)
    (he : Evolves (x.joinWith merge t y).2 z) :
    (x.mapIds z.resolve).Within ((x.joinWith merge t y).1.mapIds z.resolve) ∧
      (y.mapIds z.resolve).Within ((x.joinWith merge t y).1.mapIds z.resolve) := by
  refine joinWith_induction
    (P := fun x y r => (∀ id ∈ x.ids, id < t.entries.size) →
      (∀ id ∈ y.ids, id < t.entries.size) → Evolves r.2 z →
        (x.mapIds z.resolve).Within (r.1.mapIds z.resolve) ∧
          (y.mapIds z.resolve).Within (r.1.mapIds z.resolve))
    (fun _ _ _ _ => ⟨.null _, .refl _⟩) (fun _ _ _ _ => ⟨.refl _, .null _⟩)
    (fun _ _ _ => ⟨.widen, .refl _⟩) (fun _ _ _ => ⟨.refl _, .widen⟩)
    (fun _ _ _ _ => ⟨.refl _, .refl _⟩) ?_ ?_ (fun _ _ _ _ _ _ => ⟨.dynamic _, .dynamic _⟩)
    x y hx hy he
  · intro x n y m ih hx hy he
    rcases ih hx hy he with ⟨hxj, hyj⟩
    exact ⟨.list hxj fun hn => by rw [hn, Bool.true_or],
      .list hyj fun hm => by rw [hm, Bool.or_true]⟩
  · intro a b hka hkb he
    have ha := hka a (List.mem_singleton.mpr rfl)
    have hb := hkb b (List.mem_singleton.mpr rfl)
    have hc := h.continues t a b ht ha hb
    have hlt : (merge t a b).1 < (merge t a b).2.entries.size :=
      hc.entries_size.symm ▸ h.known t a b ht ha hb
    rcases h.resolve_eq t a b ht ha hb hn with ⟨hra, hrb⟩
    -- Both classes are the merged one from here on, in the table `z` too.
    have hza := he.resolve_eq hc.wellFormed.linked hlt hra
    have hzb := he.resolve_eq hc.wellFormed.linked hlt hrb
    simp only [mapIds, hza, hzb]
    exact ⟨.ref _, .ref _⟩

/-- Both slots are within what they are joined to. -/
theorem Slot.within_joinWith (h : Lawful n ops merge) (ht : t.WellFormed) (hn : t.size ≤ n)
    {a b : Slot} (ha : a.Known t.entries.size) (hb : b.Known t.entries.size)
    (he : Evolves (a.joinWith merge t b).2 z) :
    z.SlotWithin a (a.joinWith merge t b).1 ∧ z.SlotWithin b (a.joinWith merge t b).1 := by
  rcases Shape.within_joinWith h ht hn ha hb he with ⟨hxa, hxb⟩
  exact ⟨⟨fun hnull => by simp only [joinWith, hnull, Bool.true_or], hxa⟩,
    fun hnull => by simp only [joinWith, hnull, Bool.or_true], hxb⟩

/-- How the fields united so far grow by taking in others: they keep what they
    have, get what the others have, and what is new to them may be null. -/
structure Grows (z : ClassTable) (fields bs fields' : List Field) : Prop where
  left : ∀ k f, Field.find? fields k = some f →
    ∃ g, Field.find? fields' k = some g ∧ z.SlotWithin f.slot g.slot
  right : ∀ f ∈ bs, ∃ g, Field.find? fields' f.key = some g ∧ z.SlotWithin f.slot g.slot
  new : ∀ k g, Field.find? fields' k = some g → Field.find? fields k = none →
    g.slot.nullable = true ∧ ∃ f ∈ bs, f.key = k

/-- Taking in nothing. -/
theorem Grows.refl (z : ClassTable) (fields : List Field) : Grows z fields [] fields where
  left k f hf := ⟨f, hf, SlotWithin.refl z f.slot⟩
  right f hf := absurd hf List.not_mem_nil
  new k g hg hnone := absurd (hnone.symm.trans hg) (by simp only [reduceCtorEq, not_false_eq_true])

/-- Taking in one field, and the others after it. -/
theorem Grows.cons {f : Field} {bs fields fields' fields'' : List Field}
    (h : Grows z fields [f] fields') (h' : Grows z fields' bs fields'') :
    Grows z fields (f :: bs) fields'' where
  left k g hg := by
    rcases h.left k g hg with ⟨g', hg', hle⟩
    rcases h'.left k g' hg' with ⟨g'', hg'', hle'⟩
    exact ⟨g'', hg'', hle.trans hle'⟩
  right g hg := by
    rcases List.mem_cons.mp hg with rfl | hg
    · rcases h.right g List.mem_cons_self with ⟨g', hg', hle⟩
      rcases h'.left g.key g' hg' with ⟨g'', hg'', hle'⟩
      exact ⟨g'', hg'', hle.trans hle'⟩
    · exact h'.right g hg
  new k g hg hnone := by
    cases hmid : Field.find? fields' k with
    | none =>
        rcases h'.new k g hg hmid with ⟨hnull, b, hb, hkey⟩
        exact ⟨hnull, b, List.mem_cons_of_mem f hb, hkey⟩
    -- A key new to the first list stays nullable in the last.
    | some g' =>
        rcases h.new k g' hmid hnone with ⟨hnull, b, hb, hkey⟩
        rcases h'.left k g' hmid with ⟨g'', hg'', hle⟩
        rw [hg, Option.some.injEq] at hg''
        exact ⟨hg'' ▸ hle.1 hnull, b, List.mem_singleton.mp hb ▸ List.mem_cons_self, hkey⟩

/-- Taking in one field: its key is there already and the slots are joined, or it is new
    and becomes nullable. -/
theorem Field.grows_uniteWith (h : Lawful n ops merge) (ht : t.WellFormed) (hn : t.size ≤ n)
    {fields : List Field} (hk : KnownAll t.entries.size fields) {f : Field}
    (hf : f.slot.Known t.entries.size) (he : Evolves (uniteWith merge fields t f).2 z) :
    Grows z fields [f] (uniteWith merge fields t f).1 := by
  have hto := find?_uniteWith merge fields t f
  -- What a key led to before, it leads to now, unless it is that of `f`.
  have hother : ∀ k d, f.key ≠ k → find? fields k = some d →
      ∃ g, find? (uniteWith merge fields t f).1 k = some g ∧ z.SlotWithin d.slot g.slot :=
    fun k d hkey hd => ⟨d, by rw [hto, if_neg hkey, hd], SlotWithin.refl z d.slot⟩
  -- A new key is put behind the others, and a known one leads to the joined slot.
  cases hfind : find? fields f.key with
  | none =>
      simp only [hfind] at hto
      refine ⟨fun k d hd => ?_, fun d hd => ?_, fun k d hd hnone => ?_⟩
      · refine hother k d (fun hkey => ?_) hd
        rw [← hkey, hfind] at hd
        cases hd
      · rw [List.mem_singleton.mp hd]
        exact ⟨f.optional, by rw [hto, if_pos rfl], fun _ => rfl, .refl _⟩
      · by_cases hkey : f.key = k
        · rw [hto, if_pos hkey, Option.some.injEq] at hd
          rw [← hd]
          exact ⟨rfl, f, List.mem_singleton.mpr rfl, hkey⟩
        · rw [hto, if_neg hkey, hnone] at hd
          cases hd
  | some g =>
      simp only [hfind] at hto
      have hez : Evolves (g.slot.joinWith merge t f.slot).2 z := by
        unfold uniteWith at he
        simpa only [hfind] using he
      rcases Slot.within_joinWith h ht hn (hk g (mem_of_find? hfind).1) hf hez with ⟨hgj, hfj⟩
      refine ⟨fun k d hd => ?_, fun d hd => ?_, fun k d hd hnone => ?_⟩
      · by_cases hkey : f.key = k
        · refine ⟨_, by rw [hto, if_pos hkey], ?_⟩
          rw [← hkey, hfind, Option.some.injEq] at hd
          exact hd ▸ hgj
        · exact hother k d hkey hd
      · rw [List.mem_singleton.mp hd]
        exact ⟨_, by rw [hto, if_pos rfl], hfj⟩
      · by_cases hkey : f.key = k
        · rw [← hkey, hfind] at hnone
          cases hnone
        · rw [hto, if_neg hkey, hnone] at hd
          cases hd

/-- Taking in all fields of the right side. -/
theorem Field.grows_uniteAllWith (h : Lawful n ops merge) (ht : t.WellFormed) (hn : t.size ≤ n)
    {fields bs : List Field} (hk : KnownAll t.entries.size fields)
    (hb : KnownAll t.entries.size bs) (he : Evolves (uniteAllWith merge fields t bs).2 z) :
    Grows z fields bs (uniteAllWith merge fields t bs).1 := by
  induction bs generalizing fields t with
  | nil => exact Grows.refl z fields
  | cons f rest ih =>
      have hf := hb f List.mem_cons_self
      have hc := (uniteWith_continues h ht hk hf).1
      rcases knownAll_uniteWith h ht hk hb with ⟨hk₁, hb₁⟩
      have hrest := (uniteAllWith_continues h hc.wellFormed hk₁ hb₁).1
      exact (grows_uniteWith h ht hn hk hf (hrest.evolves.trans hc.wellFormed.linked he)).cons
        (ih hc.wellFormed (Nat.le_trans hc.size_le hn) hk₁ hb₁ he)

/-- A field with a new key goes to the end. -/
theorem Field.insert_of_notMem {fields : List Field} {f : Field} (h : f.key ∉ fields.map key) :
    insert fields f = fields ++ [f] := by
  induction fields with
  | nil => rfl
  | cons g rest ih =>
      rw [List.map_cons, List.mem_cons, not_or] at h
      rw [insert, if_neg (Ne.symm h.1), ih h.2, List.cons_append]

/-- Distinct keys are put in their order. -/
theorem Field.foldl_insert_of_nodup {fields new : List Field}
    (h : ((fields ++ new).map key).Nodup) : new.foldl insert fields = fields ++ new := by
  induction new generalizing fields with
  | nil => rw [List.foldl_nil, List.append_nil]
  | cons f rest ih =>
      have hnot : f.key ∉ fields.map key := fun hmem => by
        rw [List.map_append, List.nodup_append] at h
        exact h.2.2 f.key hmem f.key (List.mem_map_of_mem List.mem_cons_self) rfl
      rw [List.foldl_cons, insert_of_notMem hnot, ih, List.append_assoc]
      · rfl
      · rwa [List.append_assoc]

/-- The slot of a key in united fields. It may be null if the key is missing on
    the right side. -/
theorem Field.map_slot_find?_unionWith {as : List Field} (ha : (as.map key).Nodup)
    (bs : List Field) (k : String) : (find? (unionWith merge t as bs).1 k).map slot =
      (find? (uniteAllWith merge as t bs).1 k).map fun g =>
        (if (find? bs g.key).isSome then g else g.optional).slot := by
  have hfirst : as.foldl insert [] = as := foldl_insert_of_nodup ha
  have hkey : ∀ f : Field, (if (find? bs f.key).isSome then f else f.optional).key = f.key :=
    fun f => by split <;> rfl
  simp only [unionWith, hfirst]
  rw [map_slot_find?_withNames, find?_map_of_key hkey, Option.map_map]
  rfl

/-- Making a field nullable widens its slot. -/
theorem Field.slotWithin_optional (z : ClassTable) (f : Field) (p : Prop) [Decidable p] :
    z.SlotWithin f.slot (if p then f else f.optional).slot := by
  split
  · exact SlotWithin.refl z f.slot
  · exact ⟨fun _ => rfl, .refl _⟩

/-- United fields cover those of both sides. -/
theorem Field.covers_unionWith (h : Lawful n ops merge) (ht : t.WellFormed) (hn : t.size ≤ n)
    {as bs : List Field} (ha : KnownAll t.entries.size as) (hb : KnownAll t.entries.size bs)
    (hka : (as.map key).Nodup) (he : Evolves (unionWith merge t as bs).2 z) :
    z.Covers as (unionWith merge t as bs).1 ∧ z.Covers bs (unionWith merge t as bs).1 := by
  have hslot : ∀ k, (find? (unionWith merge t as bs).1 k).map slot =
      (find? (uniteAllWith merge as t bs).1 k).map fun g =>
        (if (find? bs g.key).isSome then g else g.optional).slot :=
    map_slot_find?_unionWith hka bs
  have hfirst : as.foldl insert [] = as := foldl_insert_of_nodup hka
  have hgrows : Grows z as bs (uniteAllWith merge as t bs).1 := by
    refine grows_uniteAllWith h ht hn ha hb ?_
    rw [← hfirst]
    exact he
  -- The fields of the union are those united, with slots no narrower.
  have hto : ∀ (k : String) (f g : Field), find? (uniteAllWith merge as t bs).1 k = some g →
      z.SlotWithin f.slot g.slot →
        ∃ u, find? (unionWith merge t as bs).1 k = some u ∧ z.SlotWithin f.slot u.slot := by
    intro k f g hg hle
    have hk := hslot k
    rw [hg, Option.map_some, Option.map_eq_some_iff] at hk
    rcases hk with ⟨u, hu, heq⟩
    exact ⟨u, hu, hle.trans (heq ▸ slotWithin_optional z g _)⟩
  -- And each field of the union comes from one that was united.
  have hfrom : ∀ k u, find? (unionWith merge t as bs).1 k = some u →
      ∃ g, find? (uniteAllWith merge as t bs).1 k = some g ∧
        (if (find? bs g.key).isSome then g else g.optional).slot = u.slot := by
    intro k u hu
    have hk := hslot k
    rw [hu, Option.map_some, eq_comm, Option.map_eq_some_iff] at hk
    exact hk
  constructor
  · refine covers_of_find? (fun k f hf => ?_) fun k u hu hf => ?_
    · rcases hgrows.left k f hf with ⟨g, hg, hle⟩
      exact hto k f g hg hle
    · rcases hfrom k u hu with ⟨g, hg, heq⟩
      rw [← heq]
      exact (slotWithin_optional z g _).1 (hgrows.new k g hg hf).1
  · refine covers_of_find? (fun k f hf => ?_) fun k u hu hf => ?_
    · rcases mem_of_find? hf with ⟨hmem, rfl⟩
      rcases hgrows.right f hmem with ⟨g, hg, hle⟩
      exact hto f.key f g hg hle
    · rcases hfrom k u hu with ⟨g, hg, heq⟩
      rcases mem_of_find? hg with ⟨_, rfl⟩
      rw [← heq, hf]
      rfl

/-! ### Merges keep what they unite -/

/-- Going back over a merge: the classes before it are kept if those after it
    are, and if what was discarded meanwhile is kept. -/
def Retains (z : ClassTable) (D : Set ClassId) (n : Nat) (ops : MergeJournal)
    (merge : ClassMerge) : Prop :=
  ∀ (t : ClassTable) (a b : ClassId), t.WellFormed → t.Keyed → a < t.entries.size →
    b < t.entries.size → t.size ≤ n → Evolves (merge t a b).2 z →
      (∀ d ∈ t.discards (ops t a b), z.Kept D d.1 d.2) → z.AllKept D (merge t a b).2 →
        z.AllKept D t

variable {D : Set ClassId}

/-- A join loses something only where two classes are merged. -/
theorem Shape.retains_joinWith (hr : Retains z D n ops merge) (ht : t.WellFormed)
    (hkt : t.Keyed) (hn : t.size ≤ n) (x y : Shape) (hx : ∀ id ∈ x.ids, id < t.entries.size)
    (hy : ∀ id ∈ y.ids, id < t.entries.size) (he : Evolves (x.joinWith merge t y).2 z)
    (hd : ∀ d ∈ t.discards (x.joinOps ops t y), z.Kept D d.1 d.2)
    (hall : z.AllKept D (x.joinWith merge t y).2) : z.AllKept D t := by
  refine joinWith_induction
    (P := fun x y r => (∀ id ∈ x.ids, id < t.entries.size) →
      (∀ id ∈ y.ids, id < t.entries.size) → Evolves r.2 z →
        (∀ d ∈ t.discards (x.joinOps ops t y), z.Kept D d.1 d.2) → z.AllKept D r.2 →
          z.AllKept D t)
    (fun _ _ _ _ _ h => h) (fun _ _ _ _ _ h => h) (fun _ _ _ _ h => h) (fun _ _ _ _ h => h)
    (fun _ _ _ _ _ h => h) (fun _ _ _ _ ih => ih) ?_ (fun _ _ _ _ _ _ _ h => h)
    x y hx hy he hd hall
  intro a b ha hb he hd hall
  exact hr t a b ht hkt (ha a (List.mem_singleton.mpr rfl)) (hb b (List.mem_singleton.mpr rfl))
    hn he hd hall

/-- Taking in one field, where only a join can lose something. -/
theorem Field.retains_uniteWith (hr : Retains z D n ops merge) (ht : t.WellFormed)
    (hkt : t.Keyed) (hn : t.size ≤ n) {fields : List Field}
    (hk : KnownAll t.entries.size fields) {f : Field} (hf : f.slot.Known t.entries.size)
    (he : Evolves (uniteWith merge fields t f).2 z)
    (hd : ∀ d ∈ t.discards (uniteOps ops fields t f), z.Kept D d.1 d.2)
    (hall : z.AllKept D (uniteWith merge fields t f).2) : z.AllKept D t := by
  unfold uniteWith at he hall
  unfold uniteOps at hd
  cases hfind : find? fields f.key with
  | none =>
      simp only [hfind] at hall
      exact hall
  | some g =>
      simp only [hfind] at he hd hall
      exact Shape.retains_joinWith hr ht hkt hn _ _ (hk g (mem_of_find? hfind).1) hf he hd hall

/-- Taking in all fields. The joins are gone back over in reverse. -/
theorem Field.retains_uniteAllWith (h : Lawful n ops merge) (hr : Retains z D n ops merge)
    (ht : t.WellFormed) (hkt : t.Keyed) (hn : t.size ≤ n) {fields bs : List Field}
    (hk : KnownAll t.entries.size fields) (hb : KnownAll t.entries.size bs)
    (he : Evolves (uniteAllWith merge fields t bs).2 z)
    (hd : ∀ d ∈ t.discards (uniteAllOps merge ops fields t bs), z.Kept D d.1 d.2)
    (hall : z.AllKept D (uniteAllWith merge fields t bs).2) : z.AllKept D t := by
  induction bs generalizing fields t with
  | nil => exact hall
  | cons f rest ih =>
      have hf := hb f List.mem_cons_self
      rcases uniteWith_continues h ht hk hf with ⟨hc, _, hl⟩
      rcases knownAll_uniteWith h ht hk hb with ⟨hk₁, hb₁⟩
      have hkt₁ : (uniteWith merge fields t f).2.Keyed := by
        rw [← run_uniteOps h.records]
        exact hkt.run ht hl (merges_uniteOps h.merges fields t f)
      have hrest := (uniteAllWith_continues h hc.wellFormed hk₁ hb₁).1
      rw [uniteAllOps, discards_append, run_uniteOps h.records] at hd
      have hall₁ := ih hc.wellFormed hkt₁ (Nat.le_trans hc.size_le hn) hk₁ hb₁ he
        (fun d hmem => hd d (List.mem_append_right _ hmem)) hall
      exact retains_uniteWith hr ht hkt hn hk hf (hrest.evolves.trans hc.wellFormed.linked he)
        (fun d hmem => hd d (List.mem_append_left _ hmem)) hall₁

end Joining

/-- Going back over the first half of a merge: the two classes are made up for
    by the united fields. -/
theorem ClassTable.AllKept.of_stages {n : Nat} {t t₁ t₂ z : ClassTable} {D : Set ClassId}
    {a b s : ClassId} {ca cb : ClassDef} {fields : List Field}
    (hs : Stages n t a b ca cb s t₁ t₂ fields) (hz : z.Linked) (h : t.WellFormed)
    (ha : a < t.entries.size) (hb : b < t.entries.size) (he : Evolves t₁ z)
    (hall : z.AllKept D t₁) (hca : z.Kept D s ca.fields) (hcb : z.Kept D s cb.fields) :
    z.AllKept D t := by
  have habs := hs.absorbs h ha hb
  have hez : Evolves t z := habs.evolves.trans h.linked he
  have hback : ∀ {x : ClassId} {old : List Field}, x < t.entries.size → t₁.resolve x = s →
      z.Kept D s old → z.Kept D (t.resolve x) old := by
    intro x old hx hxs hkept
    refine hkept.congr hz ?_ rfl
    have hx₁ := he.resolve_resolve x (habs.entries_size.symm ▸ hx)
    rw [hez.resolve_resolve x hx, ← hx₁, hxs]
  refine hall.of_descends hz h.toValid habs.wellFormed.toValid (hs.descends h ha hb) he
    fun i c hi hne => ?_
  -- In this half no class goes but the two that are merged.
  have hgone : i = t.resolve a ∨ i = t.resolve b := by
    by_contra hnot
    exact hne (hs.resolve_of_ne h ha hb hi (fun he => hnot (Or.inl he))
      fun he => hnot (Or.inr he))
  rcases hgone with rfl | rfl
  · rw [← Option.some.inj (hs.at?_left.symm.trans hi)]
    exact hback ha (hs.resolve h ha hb).1 hca
  · rw [← Option.some.inj (hs.at?_right.symm.trans hi)]
    exact hback hb (hs.resolve h ha hb).2 hcb

/-- Merging keeps what it unites, so nothing is lost but what is discarded. -/
theorem ClassTable.retains_mergeUpTo {z : ClassTable} (hz : z.Linked) (D : Set ClassId) (n : Nat) :
    Retains z D n (mergeOpsUpTo n) (mergeUpTo n) := by
  induction n with
  | zero => exact fun _ _ _ _ _ _ _ _ _ _ hall => hall
  | succ n ih =>
      intro t a b h hkt ha hb hn he hd hall
      rcases mergeUpTo_cases h ha hb n with ⟨_, heq, _⟩ | ⟨ca, cb, s, t₁, t₂, fields, hs⟩
      · rw [heq] at hall
        exact hall
      · rw [hs.merge_eq] at he hall
        rw [hs.discards_eq] at hd
        have hw₁ := (hs.absorbs h ha hb).wellFormed
        have hn₁ := hs.size_le h ha hb hn
        rcases hs.knownAll h ha hb with ⟨hka, hkb⟩
        rcases hs.unites (lawful_mergeUpTo n) h ha hb with ⟨hc, hs₂, hk, _⟩
        -- Back over the replacement, the union, and the class giving way.
        rcases AllKept.of_replaceFields hz hc.wellFormed hs₂ hk he
          (fun d hmem => hd d (List.mem_append_right _ hmem)) hall with ⟨hall₂, hnew⟩
        have hrep := (hs.replaces (lawful_mergeUpTo n) h ha hb).1
        have he₂ : Evolves t₂ z := hrep.evolves.trans hc.wellFormed.linked he
        have he₁ : Evolves t₁ z := hc.evolves.trans hw₁.linked he₂
        have htable : (Field.unionWith (mergeUpTo n) t₁ ca.fields cb.fields).2 = t₂ := by
          rw [hs.unionWith_eq]
        have heu : Evolves (Field.unionWith (mergeUpTo n) t₁ ca.fields cb.fields).2 z :=
          htable.symm ▸ he₂
        have hall₁ : z.AllKept D t₁ := by
          refine Field.retains_uniteAllWith (lawful_mergeUpTo n) ih hw₁
            (hkt.descends (hs.descends h ha hb)) hn₁ (fun f hf => hka f ?_) hkb heu
            (fun d hmem => hd d (List.mem_append_left _ hmem)) (htable.symm ▸ hall₂)
          exact (Field.mem_foldl_insert hf).resolve_left List.not_mem_nil
        have hcovers := Field.covers_unionWith (lawful_mergeUpTo n) hw₁ hn₁ hka hkb
          (hkt _ ca hs.at?_left) heu
        rw [hs.unionWith_eq] at hcovers
        exact AllKept.of_stages hs hz h ha hb he₁ hall₁ (hnew.of_covers hcovers.1)
          (hnew.of_covers hcovers.2)

end DartModels
