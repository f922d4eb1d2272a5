import DartModels.Proofs.WellFormed

/-!
# Merging classes

A merge of two classes, with the merges nested in it.

The fields of the two are united after one of them gave way, and uniting fields
may merge further classes, among them the one that is in the middle of being
merged. The recursion is on the number of merges that may still be nested. Its
induction hypothesis is `Lawful`, which is stated for any way of merging: joins
of shapes and unions of fields are proved once for a lawful merge, and a merge
with one more level is lawful because the level below is.

Everything is said of a merge together with its journal. What holds after each
operation of the journal holds inside the merge too.

## Main definitions

* `Lawful`: A way of merging that can be trusted with any table.
* `Stages`: The moments of a merge of two different classes.

## Theorems

* `Shape.joinWith_continues`, `Field.unionWith_continues`: Joins and unions by
  a lawful merge.
* `mergeUpTo_cases`: A merge finds one class, or goes through its stages.
* `lawful_mergeClasses`: Merging classes is lawful.
-/

namespace DartModels

/-- A way of merging classes that can be trusted with any table. The two
    numbers and the resulting one stand for the same class then, as long as no
    more than `n` classes were live. -/
structure Lawful (n : Nat) (ops : MergeJournal) (merge : ClassMerge) : Prop where
  records : Records ops merge
  merges : ∀ t a b, ∀ op ∈ ops t a b, op.Merges
  legal : ∀ (t : ClassTable) (a b : ClassId), t.WellFormed → a < t.entries.size →
    b < t.entries.size → t.Legal (ops t a b)
  continues : ∀ (t : ClassTable) (a b : ClassId), t.WellFormed → a < t.entries.size →
    b < t.entries.size → ClassTable.Continues t (merge t a b).2
  known : ∀ (t : ClassTable) (a b : ClassId), t.WellFormed → a < t.entries.size →
    b < t.entries.size → (merge t a b).1 < t.entries.size
  resolve_eq : ∀ (t : ClassTable) (a b : ClassId), t.WellFormed → a < t.entries.size →
    b < t.entries.size → t.size ≤ n →
      (merge t a b).2.resolve a = (merge t a b).2.resolve (merge t a b).1 ∧
        (merge t a b).2.resolve b = (merge t a b).2.resolve (merge t a b).1

section Lawful

variable {n : Nat} {ops : MergeJournal} {merge : ClassMerge} {t : ClassTable}

open ClassTable

/-- A join of shapes by a lawful merge is a step of a merge, and its result refers to
    classes that were there before. -/
theorem Shape.joinWith_continues (h : Lawful n ops merge) (ht : t.WellFormed) (x y : Shape)
    (hx : ∀ id ∈ x.ids, id < t.entries.size) (hy : ∀ id ∈ y.ids, id < t.entries.size) :
    Continues t (joinWith merge t x y).2 ∧
      ∀ id ∈ (joinWith merge t x y).1.ids, id < t.entries.size := by
  have hnone : Continues t t := Continues.refl ht
  -- Only where two classes meet does anything happen; in the other cases the table is the
  -- old one and the shape is one of the two, or none of its parts is a class.
  refine joinWith_induction
    (P := fun x y r => (∀ id ∈ x.ids, id < t.entries.size) →
      (∀ id ∈ y.ids, id < t.entries.size) →
        Continues t r.2 ∧ ∀ id ∈ r.1.ids, id < t.entries.size)
    (fun _ _ hy => ⟨hnone, hy⟩) (fun _ hx _ => ⟨hnone, hx⟩) (fun _ hy => ⟨hnone, hy⟩)
    (fun hx _ => ⟨hnone, hx⟩) (fun _ hx _ => ⟨hnone, hx⟩) (fun _ _ _ _ ih => ih) ?_ ?_
    x y hx hy
  · intro a b ha hb
    have ha' := ha a (List.mem_singleton.mpr rfl)
    have hb' := hb b (List.mem_singleton.mpr rfl)
    refine ⟨h.continues t a b ht ha' hb', fun id hid => ?_⟩
    rw [List.mem_singleton.mp hid]
    exact h.known t a b ht ha' hb'
  · intro _ _ _ _ _
    exact ⟨hnone, fun id hid => absurd hid List.not_mem_nil⟩

/-- The journal of a join is legal, since two classes that meet were given out before. -/
theorem Shape.legal_joinOps (h : Lawful n ops merge) (ht : t.WellFormed) (x y : Shape)
    (hx : ∀ id ∈ x.ids, id < t.entries.size) (hy : ∀ id ∈ y.ids, id < t.entries.size) :
    t.Legal (x.joinOps ops t y) := by
  induction x generalizing y with
  | primitive p => cases y <;> exact trivial
  | list x n ih =>
      cases y with
      | primitive q => exact trivial
      | list y m => exact ih y hx hy
      | ref b => exact trivial
  | ref a =>
      cases y with
      | primitive q => exact trivial
      | list y m => exact trivial
      | ref b =>
          exact h.legal t a b ht (hx a (List.mem_singleton.mpr rfl))
            (hy b (List.mem_singleton.mpr rfl))

/-- Taking one field in: what is said of the table, of the fields and of the journal is
    proved together, because a row of fields needs all three for the next one. -/
theorem Field.uniteWith_continues (h : Lawful n ops merge) (ht : t.WellFormed)
    {fields : List Field} (hf : KnownAll t.entries.size fields) {f : Field}
    (hs : f.slot.Known t.entries.size) :
    Continues t (uniteWith merge fields t f).2 ∧
      KnownAll t.entries.size (uniteWith merge fields t f).1 ∧
      t.Legal (uniteOps ops fields t f) := by
  unfold uniteWith uniteOps
  cases hfind : find? fields f.key with
  | none =>
      refine ⟨Continues.refl ht, fun g hg => ?_, trivial⟩
      rcases List.mem_append.mp hg with hg | hg
      · exact hf g hg
      · rw [List.mem_singleton.mp hg]
        exact hs
  | some g =>
      have hg := hf g (mem_of_find? hfind).1
      rcases Shape.joinWith_continues h ht g.slot.shape f.slot.shape hg hs with ⟨hc, hk⟩
      refine ⟨hc, fun k hmem => ?_, Shape.legal_joinOps h ht _ _ hg hs⟩
      rcases mem_insert hmem with rfl | hmem
      · exact hk
      · exact hf k hmem

/-- When a field has been taken in, so can be those that come after it. -/
theorem Field.knownAll_uniteWith (h : Lawful n ops merge) (ht : t.WellFormed)
    {fields rest : List Field} {f : Field} (hk : KnownAll t.entries.size fields)
    (hb : KnownAll t.entries.size (f :: rest)) :
    KnownAll (uniteWith merge fields t f).2.entries.size (uniteWith merge fields t f).1 ∧
      KnownAll (uniteWith merge fields t f).2.entries.size rest := by
  rcases uniteWith_continues h ht hk (hb f List.mem_cons_self) with ⟨hc, hk', _⟩
  rw [hc.entries_size]
  exact ⟨hk', fun g hg => hb g (List.mem_cons_of_mem f hg)⟩

/-- Taking in a row of fields. The table changes from one to the next, but no number is
    given out on the way, so fields that were known stay known. -/
theorem Field.uniteAllWith_continues (h : Lawful n ops merge) (ht : t.WellFormed)
    {fields bs : List Field} (hf : KnownAll t.entries.size fields)
    (hb : KnownAll t.entries.size bs) :
    Continues t (uniteAllWith merge fields t bs).2 ∧
      KnownAll t.entries.size (uniteAllWith merge fields t bs).1 ∧
      t.Legal (uniteAllOps merge ops fields t bs) := by
  induction bs generalizing fields t with
  | nil => exact ⟨Continues.refl ht, hf, trivial⟩
  | cons f rest ih =>
      rcases uniteWith_continues h ht hf (hb f List.mem_cons_self) with ⟨hc, _, hl⟩
      rcases knownAll_uniteWith h ht hf hb with ⟨hk₁, hb₁⟩
      rcases ih hc.wellFormed hk₁ hb₁ with ⟨hc', hk', hl'⟩
      refine ⟨hc.trans ht.linked hc', hc.entries_size ▸ hk', ?_⟩
      rw [uniteAllOps, legal_append, run_uniteOps h.records]
      exact ⟨hl, hl'⟩

/-- Uniting the fields of two classes. -/
theorem Field.unionWith_continues (h : Lawful n ops merge) (ht : t.WellFormed)
    {as bs : List Field} (ha : KnownAll t.entries.size as) (hb : KnownAll t.entries.size bs) :
    Continues t (unionWith merge t as bs).2 ∧
      KnownAll t.entries.size (unionWith merge t as bs).1 ∧
      t.Legal (unionOps merge ops t as bs) := by
  -- Fields of one key are folded into one first, so none is new.
  have hfirst : KnownAll t.entries.size (as.foldl insert []) := fun f hf =>
    (mem_foldl_insert hf).elim (fun hnil => absurd hnil List.not_mem_nil) (ha f)
  rcases uniteAllWith_continues h ht hfirst hb with ⟨hc, hk, hl⟩
  refine ⟨hc, fun g hg => ?_, hl⟩
  -- Naming a field and letting it be null leave its references.
  rcases mem_withNames hg with ⟨f, hf, _, hslot⟩
  rcases List.mem_map.mp hf with ⟨f', hf', rfl⟩
  rw [hslot]
  split
  · exact hk f' hf'
  · exact hk f' hf'

end Lawful

namespace ClassTable

variable {t : ClassTable} {a b : ClassId}

/-- The moments of a merge of two different classes: `s` is the class that
    stays, in the table `t₁` right after the other gave way, and `fields` are the
    united fields, in the table `t₂` that uniting them leads to. -/
structure Stages (n : Nat) (t : ClassTable) (a b : ClassId) (ca cb : ClassDef) (s : ClassId)
    (t₁ t₂ : ClassTable) (fields : List Field) : Prop where
  ne : t.resolve a ≠ t.resolve b
  at?_left : t.at? (t.resolve a) = some ca
  at?_right : t.at? (t.resolve b) = some cb
  absorb_eq : t.absorb (t.resolve a) (t.resolve b) = (s, t₁)
  unionWith_eq : Field.unionWith (mergeUpTo n) t₁ ca.fields cb.fields = (fields, t₂)
  merge_eq : mergeUpTo (n + 1) t a b = t₂.replaceFields s fields
  ops_eq : mergeOpsUpTo (n + 1) t a b = .absorb (t.resolve a) (t.resolve b) ::
    (Field.unionOps (mergeUpTo n) (mergeOpsUpTo n) t₁ ca.fields cb.fields ++ [.replace s fields])

/-- A merge finds that both numbers stand for one class and does nothing, or it goes
    through its stages. -/
theorem mergeUpTo_cases (h : t.WellFormed) (ha : a < t.entries.size) (hb : b < t.entries.size)
    (n : Nat) : (t.resolve a = t.resolve b ∧ mergeUpTo (n + 1) t a b = (t.resolve a, t) ∧
        mergeOpsUpTo (n + 1) t a b = []) ∨
      ∃ ca cb s t₁ t₂ fields, Stages n t a b ca cb s t₁ t₂ fields := by
  by_cases hab : t.resolve a = t.resolve b
  · refine Or.inl ⟨hab, ?_, ?_⟩
    · simp only [mergeUpTo, if_pos hab]
    · simp only [mergeOpsUpTo, if_pos hab]
  · rcases h.linked.find? (h.linked.resolve_lt ha) with ⟨ca, hca⟩
    rcases h.linked.find? (h.linked.resolve_lt hb) with ⟨cb, hcb⟩
    let r := t.absorb (t.resolve a) (t.resolve b)
    let u := Field.unionWith (mergeUpTo n) r.2 ca.fields cb.fields
    refine Or.inr ⟨ca, cb, r.1, r.2, u.2, u.1, hab, ?_, ?_, rfl, rfl, ?_, ?_⟩
    · rwa [find?_eq_at?, h.linked.resolve_resolve ha] at hca
    · rwa [find?_eq_at?, h.linked.resolve_resolve hb] at hcb
    · simp only [mergeUpTo, if_neg hab, hca, hcb, r, u]
    · simp only [mergeOpsUpTo, if_neg hab, hca, hcb, r, u]

section Stages

variable {n : Nat} {ca cb : ClassDef} {s : ClassId} {t₁ t₂ : ClassTable} {fields : List Field}

theorem Stages.absorbs (hs : Stages n t a b ca cb s t₁ t₂ fields) (h : t.WellFormed)
    (ha : a < t.entries.size) (hb : b < t.entries.size) : Continues t t₁ := by
  have habs := h.absorb (h.linked.resolve_lt ha) (h.linked.resolve_lt hb)
  rwa [hs.absorb_eq] at habs

theorem Stages.known (hs : Stages n t a b ca cb s t₁ t₂ fields) (h : t.WellFormed)
    (ha : a < t.entries.size) (hb : b < t.entries.size) : s < t.entries.size := by
  have hlt := h.absorb_known (h.linked.resolve_lt ha) (h.linked.resolve_lt hb)
  rwa [hs.absorb_eq] at hlt

/-- The fields are those from before one class gave way, and their references are known
    afterwards too. -/
theorem Stages.knownAll (hs : Stages n t a b ca cb s t₁ t₂ fields) (h : t.WellFormed)
    (ha : a < t.entries.size) (hb : b < t.entries.size) :
    Field.KnownAll t₁.entries.size ca.fields ∧ Field.KnownAll t₁.entries.size cb.fields := by
  have hsize := (hs.absorbs h ha hb).entries_size
  exact ⟨hsize ▸ h.known _ ca hs.at?_left, hsize ▸ h.known _ cb hs.at?_right⟩

/-- One class is gone when the fields are looked at. -/
theorem Stages.size_succ (hs : Stages n t a b ca cb s t₁ t₂ fields) (h : t.WellFormed)
    (ha : a < t.entries.size) (hb : b < t.entries.size) : t₁.size + 1 = t.size := by
  have hne : t.resolve (t.resolve a) ≠ t.resolve (t.resolve b) := by
    rw [h.linked.resolve_resolve ha, h.linked.resolve_resolve hb]
    exact hs.ne
  rcases absorb_mergedInto h.toValid (h.linked.resolve_lt ha) (h.linked.resolve_lt hb) hne with
    ⟨gives, hm, _⟩
  rw [hs.absorb_eq] at hm
  exact hm.size

/-- So one nested merge less is enough for them. -/
theorem Stages.size_le (hs : Stages n t a b ca cb s t₁ t₂ fields) (h : t.WellFormed)
    (ha : a < t.entries.size) (hb : b < t.entries.size) (hn : t.size ≤ n + 1) : t₁.size ≤ n := by
  have hsize := hs.size_succ h ha hb
  omega

/-- Both numbers stand for the class that stays from the first stage on, although
    nothing has been united yet. -/
theorem Stages.resolve (hs : Stages n t a b ca cb s t₁ t₂ fields) (h : t.WellFormed)
    (ha : a < t.entries.size) (hb : b < t.entries.size) :
    t₁.resolve a = s ∧ t₁.resolve b = s := by
  have he := (hs.absorbs h ha hb).evolves
  have hr := h.resolve_absorb (h.linked.resolve_lt ha) (h.linked.resolve_lt hb)
  rw [hs.absorb_eq, he.resolve_resolve a ha, he.resolve_resolve b hb] at hr
  exact hr

/-- The other classes stay what they are. -/
theorem Stages.resolve_of_ne (hs : Stages n t a b ca cb s t₁ t₂ fields) (h : t.WellFormed)
    (ha : a < t.entries.size) (hb : b < t.entries.size) {i : ClassId} {c : ClassDef}
    (hi : t.at? i = some c) (hia : i ≠ t.resolve a) (hib : i ≠ t.resolve b) :
    t₁.resolve i = i := by
  have hne : t.resolve (t.resolve a) ≠ t.resolve (t.resolve b) := by
    rw [h.linked.resolve_resolve ha, h.linked.resolve_resolve hb]
    exact hs.ne
  rcases absorb_mergedInto h.toValid (h.linked.resolve_lt ha) (h.linked.resolve_lt hb) hne with
    ⟨gives, hm, hcase⟩
  rw [h.linked.resolve_resolve ha, h.linked.resolve_resolve hb] at hcase
  -- Only the class that gave way is led elsewhere, and that is one of the two.
  have hig : t.resolve i ≠ gives := by
    rw [resolve_of_at? hi]
    rcases hcase with ⟨_, rfl⟩ | ⟨_, rfl⟩
    · exact hib
    · exact hia
  rw [hs.absorb_eq] at hm
  rw [hm.resolve h.toValid (lt_of_at? hi), if_neg hig, resolve_of_at? hi]

theorem Stages.run_unionOps (hs : Stages n t a b ca cb s t₁ t₂ fields) :
    t₁.run (Field.unionOps (mergeUpTo n) (mergeOpsUpTo n) t₁ ca.fields cb.fields) = t₂ := by
  rw [Field.run_unionOps (run_mergeOpsUpTo n), hs.unionWith_eq]

/-- The second stage. If merges with one level less are lawful, so is everything that
    uniting the fields sets off. -/
theorem Stages.unites (hs : Stages n t a b ca cb s t₁ t₂ fields)
    (hn : Lawful n (mergeOpsUpTo n) (mergeUpTo n)) (h : t.WellFormed)
    (ha : a < t.entries.size) (hb : b < t.entries.size) :
    Continues t₁ t₂ ∧ s < t₂.entries.size ∧ Field.KnownAll t₂.entries.size fields ∧
      t₁.Legal (Field.unionOps (mergeUpTo n) (mergeOpsUpTo n) t₁ ca.fields cb.fields) := by
  have habs := hs.absorbs h ha hb
  rcases hs.knownAll h ha hb with ⟨hka, hkb⟩
  rcases Field.unionWith_continues hn habs.wellFormed hka hkb with ⟨hc, hk, hl⟩
  rw [hs.unionWith_eq] at hc hk
  have hsize : t₂.entries.size = t.entries.size := hc.entries_size.trans habs.entries_size
  exact ⟨hc, hsize.symm ▸ hs.known h ha hb, hc.entries_size ▸ hk, hl⟩

/-- The last stage, and with it the whole merge. -/
theorem Stages.replaces (hs : Stages n t a b ca cb s t₁ t₂ fields)
    (hn : Lawful n (mergeOpsUpTo n) (mergeUpTo n)) (h : t.WellFormed)
    (ha : a < t.entries.size) (hb : b < t.entries.size) :
    Continues t₂ (t₂.replaceFields s fields).2 ∧ Continues t (t₂.replaceFields s fields).2 := by
  have habs := hs.absorbs h ha hb
  rcases hs.unites hn h ha hb with ⟨hc, hs₂, hk, _⟩
  have hrep := hc.wellFormed.replaceFields hs₂ hk
  exact ⟨hrep, habs.trans h.linked (hc.trans habs.wellFormed.linked hrep)⟩

/-- What stands for `s` when the class gave way stands for it in the end. -/
theorem Stages.resolve_replaceFields (hs : Stages n t a b ca cb s t₁ t₂ fields)
    (hn : Lawful n (mergeOpsUpTo n) (mergeUpTo n)) (h : t.WellFormed)
    (ha : a < t.entries.size) (hb : b < t.entries.size) {x : ClassId} (hx : x < t.entries.size)
    (hxs : t₁.resolve x = s) : (t₂.replaceFields s fields).2.resolve x =
      (t₂.replaceFields s fields).2.resolve (t₂.replaceFields s fields).1 := by
  have habs := hs.absorbs h ha hb
  rcases hs.unites hn h ha hb with ⟨hc, hs₂, hk, _⟩
  have hrep := (hs.replaces hn h ha hb).1
  have he := (hc.trans habs.wellFormed.linked hrep).evolves
  -- What stood for `s` after the first stage stands for what `s` stands for at the end.
  have hsame := he.resolve_resolve x (habs.entries_size.symm ▸ hx)
  rw [hxs] at hsame
  rw [← hc.wellFormed.resolve_replaceFields hs₂ hk, hrep.wellFormed.linked.resolve_idem, hsame]

/-- The journal of the whole merge: the class gives way, the fields are united, and the
    result is put in place. -/
theorem Stages.legal (hs : Stages n t a b ca cb s t₁ t₂ fields)
    (hn : Lawful n (mergeOpsUpTo n) (mergeUpTo n)) (h : t.WellFormed)
    (ha : a < t.entries.size) (hb : b < t.entries.size) :
    t.Legal (mergeOpsUpTo (n + 1) t a b) := by
  rcases hs.unites hn h ha hb with ⟨_, hs₂, hk, hl⟩
  rw [hs.ops_eq]
  refine ⟨⟨h.linked.resolve_lt ha, h.linked.resolve_lt hb⟩, fun hp => hp.elim, ?_⟩
  rw [Operation.apply, hs.absorb_eq, legal_append, hs.run_unionOps]
  exact ⟨hl, ⟨hs₂, hk⟩, fun hp => hp.elim, trivial⟩

end Stages

/-- A table that has given out a number has a live class. -/
theorem Linked.size_pos (h : t.Linked) (ha : a < t.entries.size) : 0 < t.size := by
  rcases h.find? ha with ⟨c, hc⟩
  exact List.length_pos_of_mem (mem_classes_iff.mpr ⟨_, hc⟩)

/-- With `n` merges nested at most, all goes well, and with as many classes all
    is merged that should be. -/
theorem lawful_mergeUpTo (n : Nat) : Lawful n (mergeOpsUpTo n) (mergeUpTo n) := by
  induction n with
  | zero =>
      refine ⟨run_mergeOpsUpTo 0, merges_mergeOpsUpTo 0, fun _ _ _ _ _ _ => trivial,
        fun t _ _ h _ _ => Continues.refl h, fun t a _ h ha _ => h.linked.resolve_lt ha,
        fun t a b h ha hb hsize => ?_⟩
      -- No merge is nested in no merge, but the numbers are of some live class, so the
      -- bound of zero classes is not met.
      have hpos := h.linked.size_pos ha
      omega
  | succ n ih =>
      -- All parts but one hold of any table, so they are taken together.
      have hstep : ∀ t a b, t.WellFormed → a < t.entries.size → b < t.entries.size →
          t.Legal (mergeOpsUpTo (n + 1) t a b) ∧ Continues t (mergeUpTo (n + 1) t a b).2 ∧
            (mergeUpTo (n + 1) t a b).1 < t.entries.size ∧
            (mergeUpTo (n + 1) t a b).2.resolve a =
              (mergeUpTo (n + 1) t a b).2.resolve (mergeUpTo (n + 1) t a b).1 ∧
            (mergeUpTo (n + 1) t a b).2.resolve b =
              (mergeUpTo (n + 1) t a b).2.resolve (mergeUpTo (n + 1) t a b).1 := by
        intro t a b h ha hb
        rcases mergeUpTo_cases h ha hb n with ⟨hab, heq, hops⟩ | ⟨ca, cb, s, t₁, t₂, fields, hs⟩
        · rw [heq, hops]
          exact ⟨trivial, Continues.refl h, h.linked.resolve_lt ha,
            (h.linked.resolve_resolve ha).symm, by rw [h.linked.resolve_resolve ha, hab]⟩
        · rcases hs.resolve h ha hb with ⟨hra, hrb⟩
          rcases hs.unites ih h ha hb with ⟨hc, hs₂, hk, _⟩
          rcases hs.replaces ih h ha hb with ⟨hrep, hall⟩
          refine ⟨hs.legal ih h ha hb, ?_⟩
          rw [hs.merge_eq]
          refine ⟨hall, ?_, hs.resolve_replaceFields ih h ha hb ha hra,
            hs.resolve_replaceFields ih h ha hb hb hrb⟩
          -- The class that comes out need not be `s`: the one that stayed may find a twin.
          rw [← hc.wellFormed.resolve_replaceFields hs₂ hk, ← hall.entries_size]
          exact hrep.wellFormed.linked.resolve_lt (hrep.entries_size ▸ hs₂)
      exact ⟨run_mergeOpsUpTo (n + 1), merges_mergeOpsUpTo (n + 1),
        fun t a b h ha hb => (hstep t a b h ha hb).1,
        fun t a b h ha hb => (hstep t a b h ha hb).2.1,
        fun t a b h ha hb => (hstep t a b h ha hb).2.2.1,
        fun t a b h ha hb _ => (hstep t a b h ha hb).2.2.2⟩

/-- A merge may nest as often as there are live classes, so it is lawful for tables of
    any size. -/
theorem lawful_mergeClasses (n : Nat) : Lawful n mergeOps mergeClasses :=
  ⟨run_mergeOps, fun t => merges_mergeOpsUpTo t.size t,
    fun t => (lawful_mergeUpTo t.size).legal t,
    fun t => (lawful_mergeUpTo t.size).continues t, fun t => (lawful_mergeUpTo t.size).known t,
    fun t a b h ha hb _ => (lawful_mergeUpTo t.size).resolve_eq t a b h ha hb (Nat.le_refl _)⟩

end ClassTable

end DartModels
