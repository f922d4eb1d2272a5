import DartModels.Proofs.Descent
import DartModels.Proofs.Signature
import Mathlib.Data.List.Forall2
import Mathlib.Data.List.Nodup

/-!
# Folding and congruence

Folding makes two classes one exactly if they have to be.

When are two classes the same? If they have the same keys with the same slots,
and if not, then still if their slots differ only by references to classes that
are the same. Read as a definition this goes in a circle, which is cut by taking
the smallest relation with this property: `Identified` is contained in every
`Congruence`. Folding computes it. What a round makes one had to be one in any
congruence, because equal signatures of current references are slots that are
alike in it. And when folding ends, having the same number is itself a
congruence, for if two classes were alike they would have equal signatures by
now, and no two classes have.

Both halves look at a class through the references of a later table, so `Folds f`
says of a table that its classes are those of an earlier one, renamed by `f`. In
the course of a round `f` changes nothing, since references are left as they are,
and at its end it is what the numbers stand for.

A class can also be read as a type without numbers, by putting in place of each
reference the type of the class referred to. For classes that contain themselves
that never ends, so it is done up to a depth. Folding changes no type at any
depth.

Signatures know a class only if no key has a semicolon, and all this is for keys
without one.

## Main definitions

* `Shape.Alike`, `Field.Alike`: Equal up to a relation of classes.
* `Congruence`, `Identified`: The relations of classes that must be one, and the
  smallest of them.
* `Folds`: The classes of a table are those of an earlier one.
* `TypeTree`, `unfold`: The type of a class without numbers.

## Theorems

* `congruence_identified`: The smallest congruence is one.
* `WellFormed.folds_foldRound`: A round folds.
* `Congruence.resolve_foldDuplicates`: Folding makes only classes one that must
  be.
* `WellFormed.congruence_foldDuplicates`: It makes all of them one.
* `Folds.unfold_eq`: Folding changes no type.
* `Reachable.foldDuplicates_spec`: What folding does to a table.
-/

namespace DartModels

variable {E E' : ClassId → ClassId → Prop}

/-- The type of a place, down to some depth. -/
inductive TypeTree where
  /-- The depth is reached. -/
  | cut
  | primitive (p : Primitive)
  | list (item : TypeTree) (nullable : Bool)
  /-- An object: for each key its type, and whether it may be null. -/
  | record (members : List (String × TypeTree × Bool))

namespace Shape

/-- The shapes are the same up to a relation of the classes they refer to. -/
def Alike (E : ClassId → ClassId → Prop) : Shape → Shape → Prop
  | .primitive p, .primitive q => p = q
  | .list x n, .list y m => Alike E x y ∧ n = m
  | .ref a, .ref b => E a b
  | _, _ => False

/-- A weaker relation makes more shapes alike. -/
theorem Alike.mono (h : ∀ i j, E i j → E' i j) {x y : Shape} (hxy : x.Alike E y) :
    x.Alike E' y := by
  induction x generalizing y with
  | primitive p => cases y <;> exact hxy
  | list x n ih =>
      cases y with
      | list y m => exact ⟨ih hxy.1, hxy.2⟩
      | _ => exact hxy
  | ref a =>
      cases y with
      | ref b => exact h a b hxy
      | _ => exact hxy

/-- The type of a shape, with types put in place of its references. -/
def unfoldWith (f : ClassId → TypeTree) : Shape → TypeTree
  | .primitive p => .primitive p
  | .list item nullable => .list (item.unfoldWith f) nullable
  | .ref id => f id

/-- Renaming first and unfolding then is unfolding what the new numbers stand for. -/
theorem unfoldWith_mapIds (f : ClassId → TypeTree) (g : ClassId → ClassId)
    (s : Shape) : (s.mapIds g).unfoldWith f = s.unfoldWith fun id => f (g id) := by
  induction s with
  | primitive p => rfl
  | list item nullable ih => rw [mapIds, unfoldWith, unfoldWith, ih]
  | ref id => rfl

/-- Only the numbers that a shape refers to matter. -/
theorem unfoldWith_congr {f g : ClassId → TypeTree} {s : Shape}
    (h : ∀ id ∈ s.ids, f id = g id) : s.unfoldWith f = s.unfoldWith g := by
  induction s with
  | primitive p => rfl
  | list item nullable ih => rw [unfoldWith, unfoldWith, ih h]
  | ref id => exact h id (List.mem_singleton_self id)

/-- Being alike up to what the numbers stand for is being equal after renaming. -/
theorem alike_iff_mapIds_eq {f : ClassId → ClassId} {x y : Shape} :
    x.Alike (fun i j => f i = f j) y ↔ x.mapIds f = y.mapIds f := by
  induction x generalizing y with
  | primitive p => cases y <;> simp [Alike, mapIds]
  | list x n ih => cases y <;> simp [Alike, mapIds, ih]
  | ref a => cases y <;> simp [Alike, mapIds]

end Shape

namespace Field

/-- The fields have the same key and nullability, and shapes that are the same
    up to a relation of classes. -/
structure Alike (E : ClassId → ClassId → Prop) (f g : Field) : Prop where
  key : f.key = g.key
  nullable : f.slot.nullable = g.slot.nullable
  shape : f.slot.shape.Alike E g.slot.shape

/-- A weaker relation makes more fields alike. -/
theorem Alike.mono (h : ∀ i j, E i j → E' i j) {f g : Field} (hfg : f.Alike E g) : f.Alike E' g :=
  ⟨hfg.key, hfg.nullable, hfg.shape.mono h⟩

/-- For fields: alike up to what the numbers stand for means the same entry after
    renaming. -/
theorem alike_iff_entry_eq {f : ClassId → ClassId} {x y : Field} :
    x.Alike (fun i j => f i = f j) y ↔ (x.mapIds f).entry = (y.mapIds f).entry := by
  constructor
  · rintro ⟨hkey, hnullable, hshape⟩
    rw [Shape.alike_iff_mapIds_eq] at hshape
    simp only [entry, mapIds, Slot.mapIds, hkey, hnullable, hshape]
  · intro h
    simp only [entry, mapIds, Slot.mapIds, Prod.mk.injEq, Slot.mk.injEq] at h
    exact ⟨h.1, h.2.2, Shape.alike_iff_mapIds_eq.mpr h.2.1⟩

end Field

namespace ClassDef

/-- The classes have the same keys in the same order, with the same slots up to
    a relation of classes. -/
def Alike (E : ClassId → ClassId → Prop) (c d : ClassDef) : Prop :=
  List.Forall₂ (Field.Alike E) c.fields d.fields

/-- A weaker relation makes more classes alike. -/
theorem Alike.mono (h : ∀ i j, E i j → E' i j) {c d : ClassDef} (hcd : c.Alike E d) :
    c.Alike E' d :=
  List.Forall₂.imp (fun _ _ => Field.Alike.mono h) hcd

/-- The layout of a renamed class, field by field. -/
theorem layout_mapIds (f : ClassId → ClassId) (c : ClassDef) :
    (c.mapIds f).layout = c.fields.map fun x => (x.mapIds f).entry := by
  rw [layout, mapIds, List.map_map]
  rfl

/-- For classes: alike up to what the numbers stand for means the same layout after
    renaming. -/
theorem alike_iff_layout_eq {f : ClassId → ClassId} {c d : ClassDef} :
    c.Alike (fun i j => f i = f j) d ↔ (c.mapIds f).layout = (d.mapIds f).layout := by
  rw [layout_mapIds, layout_mapIds, ← List.forall₂_eq_eq_eq, List.forall₂_map_left_iff,
    List.forall₂_map_right_iff]
  exact ⟨List.Forall₂.imp fun _ _ => Field.alike_iff_entry_eq.mp,
    List.Forall₂.imp fun _ _ => Field.alike_iff_entry_eq.mpr⟩

/-- A renaming that keeps the references of a class keeps the class. -/
theorem mapIds_of_forall {f : ClassId → ClassId} {c : ClassDef}
    (h : ∀ x ∈ c.fields, ∀ i ∈ x.slot.shape.ids, f i = i) : c.mapIds f = c := by
  have hfield : ∀ x ∈ c.fields, x.mapIds f = x := fun x hx => by
    have hshape : x.slot.shape.mapIds f = x.slot.shape.mapIds fun i => i :=
      Shape.mapIds_congr (h x hx)
    rw [Field.mapIds, Slot.mapIds, hshape, show x.slot.shape.mapIds (fun i => i) = _ from
      Shape.mapIds_id x.slot.shape]
  rw [mapIds, List.map_congr_left hfield, List.map_id']

/-- Not to rename keeps every class. -/
theorem mapIds_id (c : ClassDef) : c.mapIds (fun i => i) = c :=
  mapIds_of_forall fun _ _ _ _ => rfl

/-- The layout of a renamed class can be had from its layout. -/
theorem layout_mapIds_eq_map (f : ClassId → ClassId) (c : ClassDef) :
    (c.mapIds f).layout = c.layout.map fun e => (e.1, e.2.mapIds f) := by
  rw [layout_mapIds, layout, List.map_map]
  rfl

/-- So classes with the same layout have the same one after renaming. -/
theorem layout_mapIds_congr {f : ClassId → ClassId} {c d : ClassDef}
    (h : c.layout = d.layout) : (c.mapIds f).layout = (d.mapIds f).layout := by
  rw [layout_mapIds_eq_map, layout_mapIds_eq_map, h]

/-- Renaming does not touch keys. -/
theorem Separable.mapIds {c : ClassDef} (h : c.Separable) (f : ClassId → ClassId) :
    (c.mapIds f).Separable := by
  intro g hg
  rcases List.mem_map.mp hg with ⟨g', hg', rfl⟩
  exact h g' hg'

end ClassDef

namespace ClassTable

variable {t t' t'' : ClassTable} {i j stays gives : ClassId} {c : ClassDef}

/-! ### Classes that must be one -/

/-- A relation of the classes that are one: a class that gave way is one with
    the class it points to, and two classes are one if they are alike. -/
structure Congruence (t : ClassTable) (E : ClassId → ClassId → Prop) : Prop where
  equivalence : Equivalence E
  pointers : ∀ i j, t.PointsTo i j → E i j
  classes : ∀ i j c d, t.at? i = some c → t.at? j = some d → c.Alike E d → E i j

/-- The two classes are one in every congruence. -/
def Identified (t : ClassTable) (i j : ClassId) : Prop :=
  ∀ E, t.Congruence E → E i j

/-- The intersection of all congruences is one. This is the smallest congruence. -/
theorem congruence_identified (t : ClassTable) : t.Congruence t.Identified where
  equivalence :=
    ⟨fun i _ hE => hE.equivalence.refl i, fun h E hE => hE.equivalence.symm (h E hE),
      fun h h' E hE => hE.equivalence.trans (h E hE) (h' E hE)⟩
  pointers i j hp _ hE := hE.pointers i j hp
  classes i j c d hc hd hcd E hE := hE.classes i j c d hc hd (hcd.mono fun _ _ h => h E hE)

/-- A number and what it stands for are one. -/
theorem Congruence.resolve (hE : t.Congruence E) (i : ClassId) : E i (t.resolve i) := by
  -- Whoever is followed, each step is a pointer, and pointers are in the congruence.
  have hchain : ∀ {j}, Relation.ReflTransGen t.PointsTo i j → E i j := fun h => by
    induction h with
    | refl => exact hE.equivalence.refl i
    | tail _ hp ih => exact hE.equivalence.trans ih (hE.pointers _ _ hp)
  exact hchain (reflTransGen_follow t t.entries.size i)

/-! ### The classes of a folded table -/

/-- The classes of `t'` are classes of `t` with their references renamed by `f`,
    and each class of `t` has become one that is equal to it up to this renaming.
    The oldest class stays, unless another is pinned. -/
structure Folds (f : ClassId → ClassId) (t t' : ClassTable) : Prop where
  evolves : Evolves t t'
  entries_size : t'.entries.size = t.entries.size
  pinned : t'.pinned = t.pinned
  at?_eq_some : ∀ i c', t'.at? i = some c' → ∃ c, t.at? i = some c ∧ c' = c.mapIds f
  layout : ∀ i c, t.at? i = some c →
    ∃ c', t'.at? (t'.resolve i) = some c' ∧ c'.layout = (c.mapIds f).layout
  senior : ∀ i c, t.at? i = some c → t'.resolve i ≤ i ∨ t'.pinned = some (t'.resolve i)

/-- References to live classes are not renamed. -/
theorem WellFormed.mapIds_resolve (h : t.WellFormed) (hc : t.at? i = some c) :
    c.mapIds t.resolve = c := by
  refine ClassDef.mapIds_of_forall fun f hf k hk => ?_
  rcases h.refs_live i c hc f hf k hk with ⟨d, hd⟩
  exact resolve_of_at? hd

/-- Without folding, no references are renamed. -/
theorem Folds.refl (h : t.Linked) : Folds (fun i => i) t t where
  evolves := Evolves.refl h
  entries_size := rfl
  pinned := rfl
  at?_eq_some i c hc := ⟨c, hc, c.mapIds_id.symm⟩
  layout i c hc := ⟨c, by rw [resolve_of_at? hc, hc], by rw [c.mapIds_id]⟩
  senior i c hc := Or.inl (Nat.le_of_eq (resolve_of_at? hc))

/-- A table is folded from itself also with its references renamed. -/
theorem WellFormed.folds_self (h : t.WellFormed) : Folds t.resolve t t where
  evolves := Evolves.refl h.linked
  entries_size := rfl
  pinned := rfl
  at?_eq_some i c hc := ⟨c, hc, (h.mapIds_resolve hc).symm⟩
  layout i c hc := ⟨c, by rw [resolve_of_at? hc, hc], by rw [h.mapIds_resolve hc]⟩
  senior i c hc := Or.inl (Nat.le_of_eq (resolve_of_at? hc))

/-- To rename in two steps is to rename once by the later table. -/
theorem Evolves.mapIds_mapIds (h : Evolves t t') (hk : Field.KnownAll t.entries.size c.fields) :
    (c.mapIds t.resolve).mapIds t'.resolve = c.mapIds t'.resolve := by
  have hfields := h.canonical_canonical hk
  simp only [canonical] at hfields
  simp only [ClassDef.mapIds, hfields]

/-- One round after another. References are renamed by the table that comes last. -/
theorem Folds.trans (h : t.WellFormed) (h'' : t''.WellFormed) (hf : Folds t'.resolve t t')
    (hf' : Folds t''.resolve t' t'') : Folds t''.resolve t t'' where
  evolves := hf.evolves.trans h.linked hf'.evolves
  entries_size := hf'.entries_size.trans hf.entries_size
  pinned := hf'.pinned.trans hf.pinned
  at?_eq_some i c'' hc'' := by
    rcases hf'.at?_eq_some i c'' hc'' with ⟨c', hc', rfl⟩
    rcases hf.at?_eq_some i c' hc' with ⟨c, hc, rfl⟩
    exact ⟨c, hc, hf'.evolves.mapIds_mapIds (hf.entries_size ▸ h.known i c hc)⟩
  layout i c hc := by
    rcases hf.layout i c hc with ⟨c', hc', heq⟩
    rcases hf'.layout _ c' hc' with ⟨c'', hc'', heq'⟩
    refine ⟨c'', ?_, ?_⟩
    · rwa [hf'.evolves.resolve_resolve i (hf.entries_size ▸ lt_of_at? hc)] at hc''
    · rw [heq', ClassDef.layout_mapIds_congr heq,
        hf'.evolves.mapIds_mapIds (hf.entries_size ▸ h.known i c hc)]
  senior i c hc := by
    rcases hf.layout i c hc with ⟨c', hc', _⟩
    rw [← hf'.evolves.resolve_resolve i (hf.entries_size ▸ lt_of_at? hc)]
    -- Once the pinned class stands for a group it goes on doing so.
    rcases hf.senior i c hc with hle | hpin
    · exact (hf'.senior _ c' hc').imp_left fun hle' => Nat.le_trans hle' hle
    · rw [← hf'.pinned] at hpin
      rcases h''.pinned_live _ hpin with ⟨d, hd⟩
      rw [resolve_of_at? hd]
      exact Or.inr hpin

/-- Two classes of the same layout are made one. -/
theorem Folds.redirect (hf : Folds (fun i => i) t t') (hl : t.Linked) (hv : t'.Valid)
    (hg : t'.GivesWay gives stays)
    (hsame : ∀ c d, t'.at? gives = some c → t'.at? stays = some d → c.layout = d.layout) :
    Folds (fun i => i) t (t'.redirect gives stays) where
  evolves := hf.evolves.trans hl (Evolves.redirect hv hg)
  entries_size := by rw [entries_size_redirect, hf.entries_size]
  pinned := hf.pinned
  at?_eq_some i c hc := hf.at?_eq_some i c (at?_redirect_eq_some_iff.mp hc).2
  layout i c hc := by
    rcases hf.layout i c hc with ⟨c', hc', heq⟩
    rw [hv.resolve_redirect hg (hf.entries_size ▸ lt_of_at? hc)]
    -- Numbers that stood for the class that gives way stand for the other one now.
    by_cases hi : t'.resolve i = gives
    · rcases hg.target_live with ⟨d, hd⟩
      rw [if_pos hi]
      refine ⟨d, at?_redirect_eq_some_iff.mpr ⟨hg.ne.symm, hd⟩, ?_⟩
      rw [← hsame c' d (hi ▸ hc') hd, heq]
    · rw [if_neg hi]
      exact ⟨c', at?_redirect_eq_some_iff.mpr ⟨hi, hc'⟩, heq⟩
  senior i c hc := hv.senior_redirect hg (hf.entries_size ▸ lt_of_at? hc) (hf.senior i c hc)

/-- At the end of a round references are brought up to date. -/
theorem Folds.settle (hf : Folds (fun i => i) t t') (hl : t.Linked) (hv : t'.Valid) :
    Folds t'.settle.resolve t t'.settle := by
  have hr := rewrites_settle t'
  have hresolve : t'.settle.resolve = t'.resolve := funext hr.resolve
  rw [hresolve]
  refine ⟨hf.evolves.trans hl (Evolves.rewrites hv.linked hr fun _ _ _ => rfl),
    hr.entries_size.trans hf.entries_size, hr.pinned.trans hf.pinned, ?_, ?_, ?_⟩
  · intro i c' hc'
    rcases hr.at?_eq_some.mp hc' with ⟨c, hc, rfl⟩
    rcases hf.at?_eq_some i c hc with ⟨d, hd, rfl⟩
    exact ⟨d, hd, by rw [d.mapIds_id]⟩
  · intro i c hc
    rcases hf.layout i c hc with ⟨c', hc', heq⟩
    rw [c.mapIds_id] at heq
    exact ⟨_, hr.at?_eq_some.mpr ⟨c', by rwa [hresolve], rfl⟩, ClassDef.layout_mapIds_congr heq⟩
  · intro i c hc
    rw [hresolve]
    exact hf.senior i c hc

/-! ### A round -/

/-- No key of a class has a semicolon. -/
def Separable (t : ClassTable) : Prop :=
  ∀ c ∈ t.classes, c.Separable

instance (t : ClassTable) : Decidable t.Separable :=
  inferInstanceAs (Decidable (∀ c ∈ t.classes, c.Separable))

/-- No keys come in, so none with a semicolon does. -/
theorem Folds.separable {f : ClassId → ClassId} (hf : Folds f t t') (hs : t.Separable) :
    t'.Separable := by
  intro c' hmem
  rcases mem_classes_iff.mp hmem with ⟨i, hc'⟩
  rcases hf.at?_eq_some i c' hc' with ⟨c, hc, rfl⟩
  exact (hs c (mem_classes_iff.mpr ⟨i, hc⟩)).mapIds f

/-- The classes of a pair have the same layout. -/
theorem Valid.layout_of_mem_duplicates (h : t.Valid) (hs : t.Separable) {p : ClassId × ClassId}
    (hp : p ∈ duplicates ∅ t.classes) :
    ∃ c d, t.at? p.1 = some c ∧ t.at? p.2 = some d ∧ c.layout = d.layout := by
  rcases h.mem_duplicates hp with ⟨c, d, hc, hd, _, hsig⟩
  have hcs := hs c (mem_classes_iff.mpr ⟨_, hc⟩)
  have hds := hs d (mem_classes_iff.mpr ⟨_, hd⟩)
  exact ⟨c, d, hc, hd, (ClassDef.signature_eq_iff hcs hds).mp hsig⟩

/-- What the classes of a pair have become by the time of its turn is made one. -/
theorem Folds.redirect_pair (hf : Folds (fun i => i) t t') (h : t.Valid) (hs : t.Separable)
    (hv : t'.Valid) (hg : t'.GivesWay gives stays) {p : ClassId × ClassId}
    (hp : p ∈ duplicates ∅ t.classes)
    (hcase : stays = t'.resolve p.1 ∧ gives = t'.resolve p.2 ∨
      stays = t'.resolve p.2 ∧ gives = t'.resolve p.1) :
    Folds (fun i => i) t (t'.redirect gives stays) := by
  -- In the course of a round no references are renamed, so both still have the layouts that
  -- made them a pair.
  refine hf.redirect h.linked hv hg fun x y hx hy => ?_
  rcases h.layout_of_mem_duplicates hs hp with ⟨c, d, hc, hd, hcd⟩
  rcases hf.layout p.1 c hc with ⟨c', hc', hcc'⟩
  rcases hf.layout p.2 d hd with ⟨d', hd', hdd'⟩
  rw [c.mapIds_id] at hcc'
  rw [d.mapIds_id] at hdd'
  rcases hcase with ⟨rfl, rfl⟩ | ⟨rfl, rfl⟩
  · rw [hd'] at hx
    rw [hc'] at hy
    rw [← Option.some.inj hx, ← Option.some.inj hy, hcc', hdd', hcd]
  · rw [hc'] at hx
    rw [hd'] at hy
    rw [← Option.some.inj hx, ← Option.some.inj hy, hcc', hdd', hcd]

/-- A round is a row of redirections of pairs, and references are brought up to date at
    its end. -/
theorem WellFormed.folds_foldRound (h : t.WellFormed) (hs : t.Separable) :
    Folds t.foldRound.resolve t t.foldRound := by
  rcases h.toValid.foldPairs_induction (Folds.refl h.linked) _ h.toValid.mem_duplicates_lt
    fun t' stays gives p hp hv hf hg hcase => hf.redirect_pair h.toValid hs hv hg hp hcase
    with ⟨hv, hf⟩
  exact hf.settle h.linked hv

/-- If a class gives way to one it is congruent to, then what a number comes to stand
    for is congruent to it. -/
theorem Congruence.resolve_redirect (hE : t.Congruence E) (hv : t'.Valid)
    (hg : t'.GivesWay gives stays) (hres : ∀ i, E i (t'.resolve i)) (h : E gives stays)
    (i : ClassId) : E i ((t'.redirect gives stays).resolve i) := by
  by_cases hi : i < t'.entries.size
  · rw [hv.resolve_redirect hg hi]
    by_cases hgives : t'.resolve i = gives
    · rw [if_pos hgives]
      exact hE.equivalence.trans (hgives ▸ hres i) h
    · rw [if_neg hgives]
      exact hres i
  · rw [resolve_of_size_le (by rw [entries_size_redirect]; exact Nat.le_of_not_lt hi)]
    exact hE.equivalence.refl i

/-- What a round makes one is one in every congruence. -/
theorem Congruence.resolve_foldRound (hE : t.Congruence E) (hs : t.Separable)
    (hw : t'.WellFormed) (hf : Folds t'.resolve t t') (hres : ∀ i, E i (t'.resolve i)) :
    ∀ i, E i (t'.foldRound.resolve i) := by
  -- The classes of a pair have the same layout by now. Their references were renamed only
  -- within the congruence, so the classes they come from are alike up to it.
  have hpair : ∀ p ∈ duplicates ∅ t'.classes, E p.1 p.2 := by
    intro p hp
    rcases hw.toValid.layout_of_mem_duplicates (hf.separable hs) hp with ⟨c', d', hc', hd', hcd⟩
    rcases hf.at?_eq_some _ c' hc' with ⟨c, hc, rfl⟩
    rcases hf.at?_eq_some _ d' hd' with ⟨d, hd, rfl⟩
    refine hE.classes _ _ c d hc hd (ClassDef.Alike.mono (fun i j hij => ?_)
      (ClassDef.alike_iff_layout_eq.mpr hcd))
    exact hE.equivalence.trans (hij ▸ hres i) (hE.equivalence.symm (hres j))
  intro i
  rw [ClassTable.foldRound, (rewrites_settle _).resolve]
  refine (hw.toValid.foldPairs_induction (P := fun t'' => ∀ i, E i (t''.resolve i)) hres _
    hw.toValid.mem_duplicates_lt fun t'' stays gives p hp hv hres' hg hcase => ?_).2 i
  refine hE.resolve_redirect hv hg hres' ?_
  -- Both classes of the pair may have moved in this round, but only within the congruence.
  have hfirst := hres' p.1
  have hdup := hres' p.2
  rcases hcase with ⟨rfl, rfl⟩ | ⟨rfl, rfl⟩
  · exact hE.equivalence.trans (hE.equivalence.symm hdup)
      (hE.equivalence.trans (hE.equivalence.symm (hpair p hp)) hfirst)
  · exact hE.equivalence.trans (hE.equivalence.symm hfirst)
      (hE.equivalence.trans (hpair p hp) hdup)

/-! ### All rounds -/

/-- All rounds together fold the table. -/
theorem WellFormed.folds_foldDuplicates (h : t.WellFormed) (hs : t.Separable) :
    Folds t.foldDuplicates.resolve t t.foldDuplicates :=
  (h.foldDuplicates_induction (P := fun t' => Folds t'.resolve t t') h.folds_self
    fun _ hw hf => hf.trans h hw.foldRound (hw.folds_foldRound (hf.separable hs))).2

/-- Folding makes only those classes one that are one in every congruence. -/
theorem Congruence.resolve_foldDuplicates (hE : t.Congruence E) (h : t.WellFormed)
    (hs : t.Separable) (i : ClassId) : E i (t.foldDuplicates.resolve i) := by
  refine ((h.foldDuplicates_induction
    (P := fun t' => Folds t'.resolve t t' ∧ ∀ i, E i (t'.resolve i)) ⟨h.folds_self, hE.resolve⟩
    fun t' hw ⟨hf, hres⟩ => ⟨?_, hE.resolve_foldRound hs hw hf hres⟩).2).2 i
  exact hf.trans h hw.foldRound (hw.folds_foldRound (hf.separable hs))

/-- When no two classes are equal any more, to be of the same class is a
    congruence. -/
theorem Folds.congruence (hf : Folds t'.resolve t t') (h : t.WellFormed) (h' : t'.WellFormed)
    (hnodup : (t'.classes.map ClassDef.signature).Nodup) :
    t.Congruence fun i j => t'.resolve i = t'.resolve j where
  equivalence := ⟨fun _ => rfl, Eq.symm, Eq.trans⟩
  pointers i j hp := by
    rcases Array.getElem?_eq_some_iff.mp hp with ⟨hi, _⟩
    exact (hf.evolves.resolve_eq h.linked hi (h.linked.resolve_of_pointsTo hp).symm).symm
  classes i j c d hc hd hcd := by
    rcases hf.layout i c hc with ⟨c', hc', hcc'⟩
    rcases hf.layout j d hd with ⟨d', hd', hdd'⟩
    have hlayout : c'.layout = d'.layout := by
      rw [hcc', hdd', ClassDef.alike_iff_layout_eq.mp hcd]
    -- Equal layouts make equal signatures, and no two classes share one.
    have heq : c' = d' := List.inj_on_of_nodup_map hnodup (mem_classes_iff.mpr ⟨_, hc'⟩)
      (mem_classes_iff.mpr ⟨_, hd'⟩) (ClassDef.signature_congr hlayout)
    rw [← h'.id_eq _ c' hc', ← h'.id_eq _ d' hd', heq]

/-- To be of one class after folding is a congruence of the table before. -/
theorem WellFormed.congruence_foldDuplicates (h : t.WellFormed) (hs : t.Separable) :
    t.Congruence fun i j => t.foldDuplicates.resolve i = t.foldDuplicates.resolve j := by
  rcases h.foldDuplicates_eq_iterate with ⟨_, _, _, hnil⟩
  have hw : t.foldDuplicates.WellFormed :=
    (h.foldDuplicates_induction (P := fun _ => True) trivial fun _ _ _ => trivial).1
  exact (h.folds_foldDuplicates hs).congruence h hw (duplicates_empty_eq_nil_iff.mp hnil)

/-- Folding makes two classes one exactly if they must be. -/
theorem WellFormed.resolve_foldDuplicates_eq_iff (h : t.WellFormed) (hs : t.Separable) :
    t.foldDuplicates.resolve i = t.foldDuplicates.resolve j ↔ t.Identified i j := by
  constructor
  · -- Both numbers are congruent to what they stand for afterwards, which is the same.
    intro hij E hE
    have hj := hE.resolve_foldDuplicates h hs j
    exact hE.equivalence.trans (hij ▸ hE.resolve_foldDuplicates h hs i) (hE.equivalence.symm hj)
  · exact fun hij => hij _ (h.congruence_foldDuplicates hs)

/-! ### Types without numbers -/

/-- The type that a number stands for, with references unfolded `n` times. -/
def unfold (t : ClassTable) : Nat → ClassId → TypeTree
  | 0, _ => .cut
  | n + 1, id =>
      match t.find? id with
      | some c => .record (c.layout.map fun e =>
          (e.1, e.2.shape.unfoldWith (unfold t n), e.2.nullable))
      | none => .cut

/-- A number has the type of the class it stands for. -/
theorem unfold_resolve (h : t.Linked) (hi : i < t.entries.size) (n : Nat) :
    t.unfold n (t.resolve i) = t.unfold n i := by
  cases n with
  | zero => rfl
  | succ n => rw [unfold, unfold, find?_eq_at?, h.resolve_resolve hi, ← find?_eq_at?]

/-- Folding changes no type, however far it is unfolded. -/
theorem Folds.unfold_eq (hf : Folds t'.resolve t t') (h : t.WellFormed) (h' : t'.WellFormed)
    (n : Nat) (hi : i < t.entries.size) : t'.unfold n i = t.unfold n i := by
  induction n generalizing i with
  | zero => rfl
  | succ n ih =>
      rcases h.linked.find? hi with ⟨c, hc⟩
      -- The class that a number stands for has kept its layout up to renaming.
      rcases hf.layout (t.resolve i) c hc with ⟨c', hc', hlayout⟩
      rw [hf.evolves.resolve_resolve i hi] at hc'
      rw [unfold, unfold, hc, show t'.find? i = some c' from hc']
      simp only [hlayout, ClassDef.layout_mapIds_eq_map, List.map_map]
      refine congrArg TypeTree.record (List.map_congr_left fun e he => ?_)
      rcases List.mem_map.mp he with ⟨x, hx, rfl⟩
      -- Renamed references stand for classes whose types are the same to one depth less.
      have hshape : (x.slot.shape.mapIds t'.resolve).unfoldWith (t'.unfold n) =
          x.slot.shape.unfoldWith (t.unfold n) := by
        rw [Shape.unfoldWith_mapIds]
        refine Shape.unfoldWith_congr fun k hk => ?_
        have hlt := h.known _ c hc x hx k hk
        rw [unfold_resolve h'.linked (hf.entries_size ▸ hlt), ih hlt]
      simp only [Function.comp_apply, Field.entry, Slot.mapIds, hshape]

/-! ### The result -/

/-- The class that stands for others after folding is one of those that were
    live before, with its name and keys. It is the pinned class if that is among
    them, and otherwise the oldest. -/
theorem Folds.survivor (hf : Folds t'.resolve t t') (h' : t'.WellFormed)
    (hi : i < t.entries.size) :
    (∃ c c', t.at? (t'.resolve i) = some c ∧ t'.at? (t'.resolve i) = some c' ∧
        c'.name = c.name ∧ c'.fields.map Field.key = c.fields.map Field.key) ∧
      (∀ p, t.pinned = some p → t'.resolve p = t'.resolve i → t'.resolve i = p) ∧
      ((∀ p, t.pinned = some p → t'.resolve p ≠ t'.resolve i) →
        ∀ j d, t.at? j = some d → t'.resolve j = t'.resolve i → t'.resolve i ≤ j) := by
  refine ⟨?_, ?_, ?_⟩
  · rcases h'.linked.find? (hf.entries_size ▸ hi) with ⟨c', hc'⟩
    rcases hf.at?_eq_some _ c' hc' with ⟨c, hc, heq⟩
    refine ⟨c, c', hc, hc', by rw [heq]; rfl, ?_⟩
    rw [heq]
    exact map_key_canonical t' c.fields
  · intro p hp hpi
    rcases h'.pinned_live p (hf.pinned ▸ hp) with ⟨d, hd⟩
    rw [← hpi, resolve_of_at? hd]
  · intro hnot j d hd hji
    rcases hf.senior j d hd with hle | hpin
    · rwa [hji] at hle
    · -- The pinned class stands for itself, so it would be of the group.
      rw [hji] at hpin
      rcases h'.pinned_live _ hpin with ⟨e, he⟩
      exact absurd (resolve_of_at? he) (hnot _ (hf.pinned ▸ hpin))

/-- What folding does to a table that operations have led to, if no key has a
    semicolon. It ends after as many rounds as there is something to do. Two
    numbers come to be of one class exactly if this has to be so by the smallest
    congruence. Which class stays of each group is decided by pinning and by age,
    and it keeps its name and its keys. The type of no number changes, and to
    fold once more changes nothing at all. -/
theorem Reachable.foldDuplicates_spec (h : t.Reachable) (hs : t.Separable) :
    (∃ n, t.foldDuplicates = foldRound^[n] t ∧
        (∀ m < n, duplicates ∅ (foldRound^[m] t).classes ≠ []) ∧
        duplicates ∅ t.foldDuplicates.classes = []) ∧
      (t.Congruence t.Identified ∧ ∀ i < t.entries.size, ∀ j < t.entries.size,
        t.foldDuplicates.resolve i = t.foldDuplicates.resolve j ↔ t.Identified i j) ∧
      (∀ i < t.entries.size,
        (∃ c c', t.at? (t.foldDuplicates.resolve i) = some c ∧
          t.foldDuplicates.at? (t.foldDuplicates.resolve i) = some c' ∧
          c'.name = c.name ∧ c'.fields.map Field.key = c.fields.map Field.key) ∧
        (∀ p, t.pinned = some p → t.foldDuplicates.resolve p = t.foldDuplicates.resolve i →
          t.foldDuplicates.resolve i = p) ∧
        ((∀ p, t.pinned = some p → t.foldDuplicates.resolve p ≠ t.foldDuplicates.resolve i) →
          ∀ j d, t.at? j = some d → t.foldDuplicates.resolve j = t.foldDuplicates.resolve i →
            t.foldDuplicates.resolve i ≤ j)) ∧
      (∀ n, ∀ i < t.entries.size, t.foldDuplicates.unfold n i = t.unfold n i) ∧
      t.foldDuplicates.foldDuplicates = t.foldDuplicates := by
  have hw := h.wellFormed
  have hw' : t.foldDuplicates.WellFormed := (h.apply .fold trivial).wellFormed
  -- The rounds fold the table, and folding keeps survivors and unfoldings.
  have hf := hw.folds_foldDuplicates hs
  have hrounds := hw.foldDuplicates_eq_iterate
  refine ⟨hrounds, ⟨congruence_identified t, fun i _ j _ => hw.resolve_foldDuplicates_eq_iff hs⟩,
    fun i hi => hf.survivor hw' hi, fun n i hi => hf.unfold_eq hw hw' n hi, ?_⟩
  rcases hrounds with ⟨_, _, _, hnil⟩
  exact foldDuplicates_of_duplicates_eq_nil hnil

/-- Two classes are made one, and with them the classes that refer to them, and
    those that refer to these. -/
def nestedOps : List Operation :=
  [.register "A" [⟨"x", "x", ⟨.primitive .int, false⟩⟩],
    .register "B" [⟨"y", "y", ⟨.primitive .int, false⟩⟩],
    .register "C" [⟨"r", "r", ⟨.ref 0, true⟩⟩], .register "D" [⟨"r", "r", ⟨.ref 1, true⟩⟩],
    .register "E" [⟨"s", "s", ⟨.list (.ref 2) false, false⟩⟩],
    .register "F" [⟨"s", "s", ⟨.list (.ref 3) false, false⟩⟩], .absorb 0 1]

/-- Folding finds that the last two have to be one. -/
theorem foldDuplicates_spec_nested : (empty.run nestedOps).Reachable ∧
    (empty.run nestedOps).Separable ∧ (empty.run nestedOps).Identified 4 5 := by
  have hreach : (empty.run nestedOps).Reachable := Reachable.empty.run (by decide +kernel)
  have hsep : (empty.run nestedOps).Separable := by decide +kernel
  refine ⟨hreach, hsep, ?_⟩
  exact ((hreach.foldDuplicates_spec hsep).2.1.2 4 (by decide +kernel) 5 (by decide +kernel)).mp
    (by decide +kernel)

end ClassTable

end DartModels
