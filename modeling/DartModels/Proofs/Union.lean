import DartModels.Proofs.Congruence
import DartModels.Proofs.FieldNames
import DartModels.Proofs.Retention

/-!
# Unions

What a class is after a merge, field by field.

A merge looks at the fields of both classes before one of them gives way. It
unites them and writes the union over whatever the class that stayed has by
then. Much can happen in between. A merge nested in the union may reach the two
classes again, give the class that stayed other fields, or make it one with a
third. None of this shows in the union, for its fields are held aside, and a
nested merge can only change what their numbers stand for. So the union is
described in the table at the end, where the numbers have come to rest. A join
that was made on the way is a join there too: what it made one stays one.

Once the fields are in place, the class may still be made one with another that
has the same signature. If no key has a semicolon, then that class has the same
keys and slots, and the description fits it as well.

The names of fields come along, since they follow from the keys. They are given
out from the left, so the keys that were there first keep theirs.

## Main definitions

* `Shape.Joined`: The join of shapes whose numbers have come to rest.
* `ClassTable.Unified`, `ClassTable.UnionOf`: The union of two field lists, as
  a later table sees it.
* `Field.WellKeyed`: Distinct keys, none of them with a semicolon.

## Theorems

* `Shape.joined_joinWith`: A join on the way is a join in the end.
* `Field.unionOf_unionWith`: United fields are a union of both sides.
* `ClassTable.WellFormed.layout_replaceFields`: Fields that are put in place can
  be found there, whatever class they are of in the end.
* `ClassTable.Reachable.mergeClasses_spec`: What a merge makes of two classes.
-/

namespace DartModels

open ClassTable

namespace Shape

variable {x y z w : Shape}

/-- Renaming classes leaves the kind of a shape. -/
theorem kind_mapIds (f : ClassId → ClassId) (x : Shape) : (x.mapIds f).kind = x.kind := by
  cases x <;> rfl

/-- Nothing but a primitive becomes one. -/
theorem mapIds_eq_primitive_iff {f : ClassId → ClassId} {p : Primitive} :
    x.mapIds f = .primitive p ↔ x = .primitive p := by
  cases x <;> simp [mapIds]

/-- Joins that ask for no class are made alike after renaming. -/
theorem Settles.mapIds (h : Settles x y z) (f : ClassId → ClassId) :
    Settles (x.mapIds f) (y.mapIds f) (z.mapIds f) := by
  cases h with
  | nullLeft => exact .nullLeft _
  | nullRight => exact .nullRight _
  | intDouble => exact .intDouble
  | doubleInt => exact .doubleInt
  | same p => exact .same p
  | clash h =>
      refine .clash ?_
      simpa only [Clash, ne_eq, mapIds_eq_primitive_iff, kind_mapIds] using h

/-- The join of two shapes when the classes in them have been made one: two
    classes that meet are the same. -/
inductive Joined : Shape → Shape → Shape → Prop where
  | settle {x y z : Shape} (h : Settles x y z) : Joined x y z
  | list {x y z : Shape} {n m : Bool} (h : Joined x y z) :
      Joined (.list x n) (.list y m) (.list z (n || m))
  | ref (id : ClassId) : Joined (.ref id) (.ref id) (.ref id)

/-- There is at most one join. -/
theorem Joined.unique (h : Joined x y z) (h' : Joined x y w) : z = w := by
  induction h generalizing w with
  | settle h =>
      cases h' with
      | settle h' => exact h.unique h'
      | list _ => exact absurd h not_settles_list
      | ref _ => exact absurd h not_settles_ref
  | list _ ih =>
      cases h' with
      | settle h' => exact absurd h' not_settles_list
      | list h' => rw [ih h']
  | ref _ =>
      cases h' with
      | settle h' => exact absurd h' not_settles_ref
      | ref _ => rfl

/-- Two classes whose join is made are one. -/
theorem Joined.of_refs {a b : ClassId} (h : Joined (.ref a) (.ref b) z) : a = b ∧ z = .ref a := by
  cases h with
  | settle h => exact absurd h not_settles_ref
  | ref _ => exact ⟨rfl, rfl⟩

end Shape

section Joining

variable {n : Nat} {ops : MergeJournal} {merge : ClassMerge} {t z : ClassTable}

/-- A join made on the way to the table `z` is the join there. -/
theorem Shape.joined_joinWith (h : Lawful n ops merge) (ht : t.WellFormed) (hn : t.size ≤ n)
    {x y : Shape} (hx : ∀ id ∈ x.ids, id < t.entries.size) (hy : ∀ id ∈ y.ids, id < t.entries.size)
    (he : Evolves (x.joinWith merge t y).2 z) :
    (x.mapIds z.resolve).Joined (y.mapIds z.resolve)
      ((x.joinWith merge t y).1.mapIds z.resolve) := by
  refine joinWith_rules
    (P := fun x y r => (∀ id ∈ x.ids, id < t.entries.size) →
      (∀ id ∈ y.ids, id < t.entries.size) → Evolves r.2 z →
        (x.mapIds z.resolve).Joined (y.mapIds z.resolve) (r.1.mapIds z.resolve))
    (fun _ _ _ hs _ _ _ => .settle (hs.mapIds _)) ?_ ?_ x y hx hy he
  · intro x n y m ih hx hy he
    exact .list (ih hx hy he)
  · intro a b ha hb he
    rw [ids, List.forall_mem_singleton] at ha hb
    have hc := h.continues t a b ht ha hb
    have hlt : (merge t a b).1 < (merge t a b).2.entries.size :=
      hc.entries_size.symm ▸ h.known t a b ht ha hb
    rcases h.resolve_eq t a b ht ha hb hn with ⟨hra, hrb⟩
    -- Both classes are the merged one from here on, in the table `z` too.
    simp only [mapIds, he.resolve_eq hc.wellFormed.linked hlt hra,
      he.resolve_eq hc.wellFormed.linked hlt hrb]
    exact .ref _

/-! ### Unions of fields -/

namespace ClassTable

/-- What two field lists have for a key, and what their union has. A key that
    one of them lacks may be null. The classes are those that the numbers stand
    for in the table `z`. -/
def Unified (z : ClassTable) : Option Field → Option Field → Field → Prop
  | some f, some f', g =>
      g.slot.nullable = (f.slot.nullable || f'.slot.nullable) ∧
        (f.slot.shape.mapIds z.resolve).Joined (f'.slot.shape.mapIds z.resolve)
          (g.slot.shape.mapIds z.resolve)
  | some f, none, g | none, some f, g =>
      g.slot.nullable = true ∧ g.slot.shape.mapIds z.resolve = f.slot.shape.mapIds z.resolve
  | none, none, _ => False

/-- Fields that are the union of two field lists: first the keys of the first
    list, then those that only the second has. -/
structure UnionOf (z : ClassTable) (as bs fields : List Field) : Prop where
  keys : fields.map Field.key =
    as.map Field.key ++ (bs.map Field.key).filter fun k => k ∉ as.map Field.key
  unified : ∀ g ∈ fields, z.Unified (Field.find? as g.key) (Field.find? bs g.key) g

/-- Only slots matter, and the classes in them. -/
theorem Unified.congr {f f' : Option Field} {g g' : Field} (h : z.Unified f f' g)
    (he : (g'.mapIds z.resolve).entry = (g.mapIds z.resolve).entry) : z.Unified f f' g' := by
  simp only [Field.entry, Field.mapIds, Slot.mapIds, Prod.mk.injEq, Slot.mk.injEq] at he
  rcases he with ⟨_, hshape, hnull⟩
  cases f <;> cases f' <;> simp_all [Unified]

/-- Fields with the same layout are a union of the same lists. -/
theorem UnionOf.congr {as bs fields fields' : List Field} (h : z.UnionOf as bs fields)
    (he : (z.canonical fields').map Field.entry = (z.canonical fields).map Field.entry) :
    z.UnionOf as bs fields' where
  keys := by
    have hkeys : ∀ fs : List Field,
        ((z.canonical fs).map Field.entry).map Prod.fst = fs.map Field.key := fun fs => by
      rw [← map_key_canonical z fs, List.map_map]
      rfl
    rw [← h.keys, ← hkeys, he, hkeys]
  unified g' hg' := by
    have hmem : (g'.mapIds z.resolve).entry ∈ (z.canonical fields).map Field.entry := by
      rw [← he]
      exact List.mem_map_of_mem (List.mem_map_of_mem hg')
    rcases List.mem_map.mp hmem with ⟨g₁, hg₁, hentry⟩
    rcases List.mem_map.mp hg₁ with ⟨g, hg, rfl⟩
    have hkey : g.key = g'.key := congrArg Prod.fst hentry
    exact hkey ▸ (h.unified g hg).congr hentry.symm

/-- A union is determined by its two sides, up to names. -/
theorem UnionOf.layout_eq {as bs fields fields' : List Field} (h : z.UnionOf as bs fields)
    (h' : z.UnionOf as bs fields') :
    (z.canonical fields).map Field.entry = (z.canonical fields').map Field.entry := by
  have hkeys : fields.map Field.key = fields'.map Field.key := h.keys.trans h'.keys.symm
  have hlen : fields.length = fields'.length := by simpa using congrArg List.length hkeys
  simp only [canonical, List.map_map]
  refine List.ext_getElem (by simpa using hlen) fun i hi hi' => ?_
  rw [List.length_map] at hi hi'
  -- At each position the keys are equal, so both fields come from the same ones.
  have hkey : fields[i].key = fields'[i].key := by
    have heq := List.getElem_of_eq hkeys (i := i) (by simpa using hi)
    simpa using heq
  have hg := h.unified _ (List.getElem_mem hi)
  have hg' := h'.unified _ (List.getElem_mem hi')
  rw [← hkey] at hg'
  simp only [List.getElem_map, Function.comp_apply, Field.entry, Field.mapIds, Slot.mapIds, hkey]
  cases hfa : Field.find? as fields[i].key <;> cases hfb : Field.find? bs fields[i].key <;>
    simp only [hfa, hfb, Unified] at hg hg'
  · rw [hg.1, hg'.1, hg.2, hg'.2]
  · rw [hg.1, hg'.1, hg.2, hg'.2]
  · rw [hg.1, hg'.1, hg.2.unique hg'.2]

end ClassTable

/-- Fields united so far, and what they are when others have been taken in: a
    key that is not among these is left alone, a new one may be null, and where
    two fields meet there is their join. -/
structure Unites (z : ClassTable) (fields bs fields' : List Field) : Prop where
  left : ∀ k f, Field.find? fields k = some f → Field.find? bs k = none →
    Field.find? fields' k = some f
  right : ∀ k f, Field.find? fields k = none → Field.find? bs k = some f →
    Field.find? fields' k = some f.optional
  both : ∀ k f f', Field.find? fields k = some f → Field.find? bs k = some f' →
    ∃ g, Field.find? fields' k = some g ∧ z.Unified (some f) (some f') g

/-- Looking up a key starts with the first field. -/
theorem Field.find?_cons (f : Field) (fields : List Field) (k : String) :
    find? (f :: fields) k = if f.key = k then some f else find? fields k := by
  by_cases hk : f.key = k <;> simp [find?, hk]

/-- Taking in all fields of the right side. The keys there are distinct, so each is
    taken in once and is not touched again. -/
theorem Field.unites_uniteAllWith (h : Lawful n ops merge) (ht : t.WellFormed) (hn : t.size ≤ n)
    {fields bs : List Field} (hk : KnownAll t.entries.size fields)
    (hb : KnownAll t.entries.size bs) (hkb : (bs.map key).Nodup)
    (he : Evolves (uniteAllWith merge fields t bs).2 z) :
    Unites z fields bs (uniteAllWith merge fields t bs).1 := by
  induction bs generalizing fields t with
  | nil =>
      exact ⟨fun k f hf _ => hf, fun k f _ hf => absurd hf (by simp [find?]),
        fun k f f' _ hf' => absurd hf' (by simp [find?])⟩
  | cons f rest ih =>
      rw [List.map_cons, List.nodup_cons] at hkb
      have hf := hb f List.mem_cons_self
      have hc := (uniteWith_continues h ht hk hf).1
      rcases knownAll_uniteWith h ht hk hb with ⟨hk₁, hb₁⟩
      have hrest := (uniteAllWith_continues h hc.wellFormed hk₁ hb₁).1
      have hez := hrest.evolves.trans hc.wellFormed.linked he
      have hto := find?_uniteWith merge fields t f
      -- No other field has the key of `f`, so what it came to is left alone.
      have hlast : find? rest f.key = none :=
        find?_eq_none_iff.mpr fun g hg hkey => hkb.1 (hkey ▸ List.mem_map_of_mem hg)
      have hrec := ih hc.wellFormed (Nat.le_trans hc.size_le hn) hk₁ hb₁ hkb.2 he
      -- For the key of `f` the first step decides, for any other the remaining ones do.
      refine ⟨fun k d hd hnone => ?_, fun k d hd hd' => ?_, fun k d d' hd hd' => ?_⟩
      · rw [find?_cons] at hnone
        split at hnone
        · cases hnone
        · rename_i hkey
          exact hrec.left k d (by rw [hto, if_neg hkey, hd]) hnone
      · rw [find?_cons] at hd'
        split at hd'
        · rename_i hkey
          subst hkey
          cases hd'
          exact hrec.left _ _ (by rw [hto, if_pos rfl, hd]) hlast
        · rename_i hkey
          exact hrec.right k d (by rw [hto, if_neg hkey, hd]) hd'
      · rw [find?_cons] at hd'
        split at hd'
        · rename_i hkey
          subst hkey
          cases hd'
          refine ⟨_, hrec.left _ _ (by rw [hto, if_pos rfl, hd]) hlast, rfl, ?_⟩
          refine Shape.joined_joinWith h ht hn (hk d (mem_of_find? hd).1) hf ?_
          unfold uniteWith at hez
          simpa only [hd, Slot.joinWith] using hez
        · rename_i hkey
          exact hrec.both k d d' (by rw [hto, if_neg hkey, hd]) hd'

/-- The keys of a union: those of the left side, and the new ones of the right side. -/
theorem Field.keys_unionWith (merge : ClassMerge) (t : ClassTable) {as bs : List Field}
    (ha : (as.map key).Nodup) (hb : (bs.map key).Nodup) : (unionWith merge t as bs).1.map key =
      as.map key ++ (bs.map key).filter fun k => k ∉ as.map key := by
  have hfirst : as.foldl insert [] = as := foldl_insert_of_nodup ha
  simp only [unionWith, hfirst]
  rw [map_withNames key fun _ _ => rfl, map_key_optional, keys_uniteAllWith as t hb]

/-- United fields are the union of both sides. -/
theorem Field.unionOf_unionWith (h : Lawful n ops merge) (ht : t.WellFormed) (hn : t.size ≤ n)
    {as bs : List Field} (ha : KnownAll t.entries.size as) (hb : KnownAll t.entries.size bs)
    (hka : (as.map key).Nodup) (hkb : (bs.map key).Nodup)
    (he : Evolves (unionWith merge t as bs).2 z) :
    z.UnionOf as bs (unionWith merge t as bs).1 := by
  have hkeys := keys_unionWith merge t hka hkb
  refine ⟨hkeys, fun g hg => ?_⟩
  have hfirst : as.foldl insert [] = as := foldl_insert_of_nodup hka
  have hunites : Unites z as bs (uniteAllWith merge as t bs).1 := by
    refine unites_uniteAllWith h ht hn ha hb hkb ?_
    simpa only [unionWith, hfirst] using he
  -- The slot of a key is the one in the fields before they were named.
  have hslot : (find? (unionWith merge t as bs).1 g.key).map slot = _ :=
    map_slot_find?_unionWith hka bs g.key
  rw [(find?_eq_some_iff (labelled_unionWith t as bs).keys).mpr ⟨hg, rfl⟩, Option.map_some,
    eq_comm, Option.map_eq_some_iff] at hslot
  rcases hslot with ⟨u, hu, hgu⟩
  rw [(mem_of_find? hu).2] at hgu
  cases hfa : find? as g.key with
  | some f =>
      cases hfb : find? bs g.key with
      | some f' =>
          rcases hunites.both _ f f' hfa hfb with ⟨v, hv, hjoin⟩
          rw [hu, Option.some.injEq] at hv
          rw [hfb, Option.isSome_some, if_pos rfl] at hgu
          simpa only [Unified, ← hgu, hv] using hjoin
      | none =>
          have hv := hunites.left _ f hfa hfb
          rw [hu, Option.some.injEq] at hv
          rw [hfb, Option.isSome_none, if_neg Bool.false_ne_true] at hgu
          simp only [Unified, ← hgu, hv, optional, and_self]
  | none =>
      cases hfb : find? bs g.key with
      | some f' =>
          have hv := hunites.right _ f' hfa hfb
          rw [hu, Option.some.injEq] at hv
          rw [hfb, Option.isSome_some, if_pos rfl] at hgu
          simp only [Unified, ← hgu, hv, optional, and_self]
      | none =>
          -- Every key of the union comes from one of the sides.
          have hmem : g.key ∈ as.map key ++ (bs.map key).filter fun k => k ∉ as.map key :=
            hkeys ▸ List.mem_map_of_mem hg
          have hnot : ∀ {fs : List Field}, find? fs g.key = none → g.key ∉ fs.map key := by
            intro fs hfs hmem
            rcases List.mem_map.mp hmem with ⟨f, hf, hkey⟩
            exact find?_eq_none_iff.mp hfs f hf hkey
          rcases List.mem_append.mp hmem with hmem | hmem
          · exact hnot hfa hmem
          · exact hnot hfb (List.mem_filter.mp hmem).1

end Joining

/-! ### Keys -/

/-- The keys are distinct, and none has a semicolon. -/
structure Field.WellKeyed (fields : List Field) : Prop where
  nodup : (fields.map key).Nodup
  separable : ∀ k ∈ fields.map key, ';' ∉ k.toList

/-- A union has no keys but those of its sides, and none twice. -/
theorem Field.WellKeyed.unionWith {as bs : List Field} (ha : WellKeyed as) (hb : WellKeyed bs)
    (merge : ClassMerge) (t : ClassTable) : WellKeyed (unionWith merge t as bs).1 := by
  refine ⟨(labelled_unionWith t as bs).keys, fun k hk => ?_⟩
  rw [keys_unionWith merge t ha.nodup hb.nodup, List.mem_append, List.mem_filter] at hk
  exact hk.elim (ha.separable k) fun hk => hb.separable k hk.1

/-- Merging classes keeps a property that the fields of all classes have. -/
def KeepsEach (P : List Field → Prop) (merge : ClassMerge) : Prop :=
  ∀ (t : ClassTable) (a b : ClassId), t.WellFormed → a < t.entries.size → b < t.entries.size →
    t.Each P → (merge t a b).2.Each P

section Keeping

variable {n : Nat} {ops : MergeJournal} {merge : ClassMerge} {t : ClassTable}
variable {P : List Field → Prop}

/-- A join changes classes only where two of them meet. -/
theorem Shape.each_joinWith (hm : KeepsEach P merge) (ht : t.WellFormed) {x y : Shape}
    (hx : ∀ id ∈ x.ids, id < t.entries.size) (hy : ∀ id ∈ y.ids, id < t.entries.size)
    (h : t.Each P) : (x.joinWith merge t y).2.Each P := by
  refine joinWith_rules
    (P := fun x y r => (∀ id ∈ x.ids, id < t.entries.size) →
      (∀ id ∈ y.ids, id < t.entries.size) → r.2.Each P)
    (fun _ _ _ _ _ _ => h) (fun _ _ _ _ ih => ih) ?_ x y hx hy
  intro a b ha hb
  rw [ids, List.forall_mem_singleton] at ha hb
  exact hm t a b ht ha hb h

/-- So does taking in fields. -/
theorem Field.each_uniteAllWith (hl : Lawful n ops merge) (hm : KeepsEach P merge)
    (ht : t.WellFormed) {fields bs : List Field} (hk : KnownAll t.entries.size fields)
    (hb : KnownAll t.entries.size bs) (h : t.Each P) :
    (uniteAllWith merge fields t bs).2.Each P := by
  induction bs generalizing fields t with
  | nil => exact h
  | cons f rest ih =>
      have hf := hb f List.mem_cons_self
      rcases knownAll_uniteWith hl ht hk hb with ⟨hk₁, hb₁⟩
      refine ih (uniteWith_continues hl ht hk hf).1.wellFormed hk₁ hb₁ ?_
      -- Only where two fields meet is there a join.
      unfold uniteWith
      cases hfind : find? fields f.key with
      | none => exact h
      | some g => exact Shape.each_joinWith hm ht (hk g (mem_of_find? hfind).1) hf h

end Keeping

namespace ClassTable

variable {t : ClassTable} {n : Nat} {a b s id : ClassId} {ca cb : ClassDef} {t₁ t₂ : ClassTable}
variable {fields : List Field}

/-- Keys do not depend on the numbers in the slots. -/
theorem numberless_wellKeyed : Numberless Field.WellKeyed := by
  intro f fields
  have hkeys : (fields.map (Field.mapIds f)).map Field.key = fields.map Field.key := by
    rw [List.map_map]
    rfl
  exact ⟨fun h => ⟨hkeys ▸ h.nodup, hkeys ▸ h.separable⟩,
    fun h => ⟨hkeys.symm ▸ h.nodup, hkeys.symm ▸ h.separable⟩⟩

/-- What is asked of the table, class by class. -/
theorem each_wellKeyed (hk : t.Keyed) (hs : t.Separable) : t.Each Field.WellKeyed := by
  refine fun i c hc => ⟨hk i c hc, fun k hmem => ?_⟩
  rcases List.mem_map.mp hmem with ⟨f, hf, rfl⟩
  exact hs c (mem_classes_iff.mpr ⟨i, hc⟩) f hf

/-- And back. -/
theorem Each.separable (h : t.Each Field.WellKeyed) : t.Separable := by
  intro c hmem f hf
  rcases mem_classes_iff.mp hmem with ⟨i, hc⟩
  exact (h i c hc).separable f.key (List.mem_map_of_mem hf)

/-- Between the stages of a merge all keys are in order, and so are those of the union,
    given that nested merges keep them so. -/
theorem Stages.wellKeyed (hs : Stages n t a b ca cb s t₁ t₂ fields)
    (hm : KeepsEach Field.WellKeyed (mergeUpTo n)) (h : t.WellFormed) (ha : a < t.entries.size)
    (hb : b < t.entries.size) (hk : t.Each Field.WellKeyed) :
    t₂.Each Field.WellKeyed ∧ Field.WellKeyed fields := by
  have hca := hk _ ca hs.at?_left
  have hcb := hk _ cb hs.at?_right
  have hfirst : ca.fields.foldl Field.insert [] = ca.fields :=
    Field.foldl_insert_of_nodup (by simpa using hca.nodup)
  rcases hs.knownAll h ha hb with ⟨hka, hkb⟩
  have hunite := Field.each_uniteAllWith (lawful_mergeUpTo n) hm (hs.absorbs h ha hb).wellFormed
    hka hkb (hk.descends numberless_wellKeyed (hs.descends h ha hb))
  have hunion := hca.unionWith hcb (mergeUpTo n) t₁
  have heq := hs.unionWith_eq
  rw [heq] at hunion
  simp only [Field.unionWith, hfirst, Prod.mk.injEq] at heq
  exact ⟨heq.2 ▸ hunite, hunion⟩

/-- Merging keeps the keys of all classes in order. By induction on the fuel: nested
    merges have less. -/
theorem keepsEach_wellKeyed (n : Nat) : KeepsEach Field.WellKeyed (mergeUpTo n) := by
  induction n with
  | zero => exact fun _ _ _ _ _ _ hk => hk
  | succ n ih =>
      intro t a b h ha hb hk
      rcases mergeUpTo_cases h ha hb n with ⟨_, heq, _⟩ | ⟨ca, cb, s, t₁, t₂, fields, hs⟩
      · rw [heq]
        exact hk
      · rw [hs.merge_eq]
        rcases hs.wellKeyed ih h ha hb hk with ⟨hk₂, hfields⟩
        rcases hs.unites (lawful_mergeUpTo n) h ha hb with ⟨hc, hs₂, hknown, _⟩
        exact hk₂.replaceFields numberless_wellKeyed hc.wellFormed hs₂ hknown hfields

/-! ### Fields put in place -/

/-- A class that is made one with another of the same signature is folded into
    it. -/
theorem WellFormed.folds_replaceFields (h : t.WellFormed) (hi : id < t.entries.size)
    (hk : Field.KnownAll t.entries.size fields) (hs : (t.install id fields).Separable) :
    Folds (t.replaceFields id fields).2.resolve (t.install id fields)
      (t.replaceFields id fields).2 := by
  have hw := (h.continues_install hi hk).wellFormed
  rcases h.at?_install hi fields with ⟨c, hc, _⟩
  rw [replaceFields_eq]
  rcases foldIntoTwin_cases (h.toValid.indexSound_install hk) hc with
    heq | ⟨twin, d, stays, gives, hd, hsig, _, hg, hcase, heq⟩
  · rw [heq]
    exact hw.folds_self
  · rw [heq]
    have hlayout : d.layout = c.layout := (ClassDef.signature_eq_iff
      (hs d (mem_classes_iff.mpr ⟨_, hd⟩)) (hs c (mem_classes_iff.mpr ⟨_, hc⟩))).mp hsig
    -- The class and its twin have the same layout, whichever of them gives way.
    refine ((Folds.refl hw.linked).redirect hw.linked hw.toValid hg fun x y hx hy => ?_).settle
      hw.linked (hw.toValid.redirect hg)
    rcases hcase with ⟨rfl, rfl⟩ | ⟨rfl, rfl⟩
    · rw [← Option.some.inj (hc.symm.trans hx), ← Option.some.inj (hd.symm.trans hy), hlayout]
    · rw [← Option.some.inj (hd.symm.trans hx), ← Option.some.inj (hc.symm.trans hy), hlayout]

/-- The class that comes out of a replacement has the new fields, with whatever
    names. -/
theorem WellFormed.layout_replaceFields (h : t.WellFormed) (hi : id < t.entries.size)
    (hk : Field.KnownAll t.entries.size fields) (hs : (t.install id fields).Separable) :
    ∃ c, (t.replaceFields id fields).2.at? (t.replaceFields id fields).1 = some c ∧
      c.layout = ((t.replaceFields id fields).2.canonical fields).map Field.entry := by
  have he := (h.replaceFields hi hk).evolves
  rcases h.at?_install hi fields with ⟨c, hc, hfields⟩
  rcases (h.folds_replaceFields hi hk hs).layout _ c hc with ⟨c', hc', hlayout⟩
  rw [he.resolve_resolve id hi, h.resolve_replaceFields hi hk] at hc'
  refine ⟨c', hc', ?_⟩
  rw [hlayout, ClassDef.layout_mapIds, hfields, ← he.canonical_canonical hk]
  simp only [canonical, List.map_map]
  rfl

/-- What comes out of a merge has the union of the fields that the two classes
    had before. -/
theorem Stages.unionOf (hs : Stages n t a b ca cb s t₁ t₂ fields) (h : t.WellFormed)
    (ha : a < t.entries.size) (hb : b < t.entries.size) (hn : t.size ≤ n + 1)
    (hk : t.Each Field.WellKeyed) :
    ∃ c, (t₂.replaceFields s fields).2.at? (t₂.replaceFields s fields).1 = some c ∧
      (t₂.replaceFields s fields).2.UnionOf ca.fields cb.fields c.fields := by
  have hw₁ := (hs.absorbs h ha hb).wellFormed
  rcases hs.knownAll h ha hb with ⟨hka, hkb⟩
  rcases hs.unites (lawful_mergeUpTo n) h ha hb with ⟨hc, hs₂, hknown, _⟩
  rcases hs.wellKeyed (keepsEach_wellKeyed n) h ha hb hk with ⟨hk₂, hfields⟩
  have hrep := hc.wellFormed.replaceFields hs₂ hknown
  -- The union is made in an earlier table, and is one as the table after the replacement
  -- reads it.
  have hunion := Field.unionOf_unionWith (z := (t₂.replaceFields s fields).2) (lawful_mergeUpTo n)
    hw₁ (hs.size_le h ha hb hn) hka hkb (hk _ ca hs.at?_left).nodup (hk _ cb hs.at?_right).nodup
    (by rw [hs.unionWith_eq]; exact hrep.evolves)
  rw [hs.unionWith_eq] at hunion
  rcases hc.wellFormed.layout_replaceFields hs₂ hknown
    (hk₂.install numberless_wellKeyed hc.wellFormed hs₂ hfields).separable with ⟨c, hat, hlayout⟩
  refine ⟨c, hat, hunion.congr ?_⟩
  -- The numbers in a live class are at rest.
  have hrest : (t₂.replaceFields s fields).2.canonical c.fields = c.fields :=
    congrArg ClassDef.fields (hrep.wellFormed.mapIds_resolve hat)
  rw [hrest]
  exact hlayout

end ClassTable

/-! ### Names -/

/-- Names are given out from the left. -/
theorem Identifier.distinctFrom_prefix (taken keys keys' : List String) :
    distinctFrom taken keys <+: distinctFrom taken (keys ++ keys') := by
  induction keys generalizing taken with
  | nil => exact List.nil_prefix
  | cons key rest ih =>
      rw [List.cons_append, distinctFrom, distinctFrom]
      exact List.prefix_cons_inj _ |>.mpr (ih _)

/-- If keys begin with those of other fields, then these fields keep their names
    among them. -/
theorem Field.Labelled.keeps_names {as fields : List Field} (ha : Labelled as)
    (hf : Labelled fields) (h : as.map key <+: fields.map key) :
    (as.map fun f => (f.key, f.name)) <+: fields.map fun f => (f.key, f.name) := by
  have hpairs : ∀ {fs : List Field}, Labelled fs → (fs.map fun f => (f.key, f.name)) =
      (fs.map key).zip (Identifier.distinctFieldNames (fs.map key)) := fun hfs => by
    rw [← hfs.names, List.zip_map']
  rcases h with ⟨new, hnew⟩
  rcases Identifier.distinctFrom_prefix [] (as.map key) new with ⟨names, hnames⟩
  have hlen := Identifier.length_distinctFieldNames (as.map key)
  refine ⟨new.zip names, ?_⟩
  rw [hpairs ha, hpairs hf, ← List.zip_append hlen.symm, hnew, Identifier.distinctFieldNames,
    hnames, hnew]
  rfl

namespace ClassTable

variable {t : ClassTable} {a b : ClassId} {ca cb : ClassDef}

/-- A number that stands for a class was given out. -/
theorem lt_of_find? {c : ClassDef} (h : t.find? a = some c) : a < t.entries.size := by
  by_contra hle
  rw [find?_eq_at?, resolve_of_size_le (Nat.le_of_not_lt hle)] at h
  exact hle (lt_of_at? h)

/-- What a merge makes of two different classes of a table, if keys are distinct
    and have no semicolon. Both numbers, and the one that is returned, stand for
    one class then. Its fields are the union of those that the two had before
    the merge, read in the table after it. Where the names of all fields follow
    from the keys they do so afterwards, and the fields of the first class have
    kept theirs. -/
theorem Reachable.mergeClasses_spec (h : t.Reachable) (hk : t.Keyed) (hs : t.Separable)
    (hne : t.resolve a ≠ t.resolve b) (hca : t.find? a = some ca) (hcb : t.find? b = some cb) :
    (t.mergeClasses a b).2.resolve a = (t.mergeClasses a b).1 ∧
      (t.mergeClasses a b).2.resolve b = (t.mergeClasses a b).1 ∧
      (t.mergeClasses a b).2.resolve (t.mergeClasses a b).1 = (t.mergeClasses a b).1 ∧
      ∃ c, (t.mergeClasses a b).2.find? (t.mergeClasses a b).1 = some c ∧
        (t.mergeClasses a b).2.UnionOf ca.fields cb.fields c.fields ∧
        (t.Each Field.Labelled → Field.Labelled c.fields ∧
          (ca.fields.map fun f => (f.key, f.name)) <+:
            c.fields.map fun f => (f.key, f.name)) := by
  have hw := h.wellFormed
  have ha := lt_of_find? hca
  have hb := lt_of_find? hcb
  have hlaw := lawful_mergeClasses t.size
  have hw' := (hlaw.continues t a b hw ha hb).wellFormed
  rcases hlaw.resolve_eq t a b hw ha hb (Nat.le_refl _) with ⟨hra, hrb⟩
  -- Two different classes are merged in stages. That they are different leaves no other
  -- case.
  have hclass : ∃ c, (t.mergeClasses a b).2.at? (t.mergeClasses a b).1 = some c ∧
      (t.mergeClasses a b).2.UnionOf ca.fields cb.fields c.fields := by
    rcases Nat.exists_eq_succ_of_ne_zero (Nat.ne_of_gt (hw.linked.size_pos ha)) with ⟨n, hn⟩
    simp only [mergeClasses, hn]
    rcases mergeUpTo_cases hw ha hb n with ⟨heq, _⟩ | ⟨ca', cb', s, t₁, t₂, fields, hst⟩
    · exact absurd heq hne
    · rw [hst.merge_eq, ← Option.some.inj (hst.at?_left.symm.trans hca),
        ← Option.some.inj (hst.at?_right.symm.trans hcb)]
      exact hst.unionOf hw ha hb (Nat.le_of_eq hn) (each_wellKeyed hk hs)
  rcases hclass with ⟨c, hat, hunion⟩
  have hrest := resolve_of_at? hat
  refine ⟨hra.trans hrest, hrb.trans hrest, hrest, c, ?_, hunion, fun hlabels => ?_⟩
  · rw [find?_eq_at?, hrest, hat]
  · have hrun := hlabels.run numberless_labelled hw (hlaw.legal t a b hw ha hb)
      fun op hop => (hlaw.merges t a b op hop).brings
    rw [hlaw.records] at hrun
    have hlabelled := hrun _ c hat
    exact ⟨hlabelled,
      (hlabels _ ca hca).keeps_names hlabelled (hunion.keys ▸ List.prefix_append _ _)⟩

/-- Two classes that lead to each other, one that leads to itself, and an older
    one with the slots that merging `A` and `B` will come to. -/
def ringOps : List Operation :=
  [.register "D" [], .register "A" [⟨"x", "x", ⟨.primitive .int, false⟩⟩],
    .register "B" [⟨"y", "y", ⟨.primitive .int, false⟩⟩],
    .register "C" [⟨"child", "child", ⟨.ref 2, false⟩⟩,
      ⟨"items", "items", ⟨.list (.primitive .int) true, false⟩⟩],
    .replace 0 [⟨"only", "only", ⟨.primitive .string, true⟩⟩,
      ⟨"child", "child", ⟨.ref 1, false⟩⟩, ⟨"x", "x", ⟨.primitive .double, false⟩⟩,
      ⟨"items", "items", ⟨.list .null false, true⟩⟩],
    .replace 1 [⟨"only", "only", ⟨.primitive .string, false⟩⟩,
      ⟨"child", "child", ⟨.ref 1, false⟩⟩, ⟨"x", "x", ⟨.primitive .int, false⟩⟩],
    .replace 2 [⟨"child", "child", ⟨.ref 3, false⟩⟩, ⟨"x", "x", ⟨.primitive .double, false⟩⟩,
      ⟨"items", "items", ⟨.list .null false, false⟩⟩]]

/-- The merge of `A` and `B` reaches `C`, and makes it one with them. -/
theorem mergeClasses_spec_ring : ∃ t ca cb c, t = empty.run ringOps ∧ t.Reachable ∧ t.Keyed ∧
    t.Separable ∧ t.resolve 1 ≠ t.resolve 2 ∧ t.find? 1 = some ca ∧ t.find? 2 = some cb ∧
    t.Each Field.Labelled ∧ (t.mergeClasses 1 2).2.find? 1 = some c ∧
    (t.mergeClasses 1 2).2.find? 2 = some c ∧
    (t.mergeClasses 1 2).2.resolve 1 = (t.mergeClasses 1 2).2.resolve 3 ∧
    (t.mergeClasses 1 2).2.UnionOf ca.fields cb.fields c.fields ∧
    c.fields.map Field.key = ["only", "child", "x", "items"] ∧
    c.fields.map Field.name = ["only", "child", "x", "items"] := by
  have hreach : (empty.run ringOps).Reachable := Reachable.empty.run (by decide +kernel)
  have hsep : (empty.run ringOps).Separable := by decide +kernel
  have hclasses : ∀ c ∈ (empty.run ringOps).classes, (c.fields.map Field.key).Nodup ∧
      c.fields.map Field.name = Identifier.distinctFieldNames (c.fields.map Field.key) := by
    decide +kernel
  have hlabels : (empty.run ringOps).Each Field.Labelled := fun i c hc =>
    ⟨(hclasses c (mem_classes_iff.mpr ⟨i, hc⟩)).1, (hclasses c (mem_classes_iff.mpr ⟨i, hc⟩)).2⟩
  have hkeyed : (empty.run ringOps).Keyed := fun i c hc => (hlabels i c hc).keys
  have hne : (empty.run ringOps).resolve 1 ≠ (empty.run ringOps).resolve 2 := by decide +kernel
  have hca : (empty.run ringOps).find? 1 = some ⟨1, "A",
      [⟨"only", "only", ⟨.primitive .string, false⟩⟩, ⟨"child", "child", ⟨.ref 1, false⟩⟩,
        ⟨"x", "x", ⟨.primitive .int, false⟩⟩]⟩ := by decide +kernel
  have hcb : (empty.run ringOps).find? 2 = some ⟨2, "B",
      [⟨"child", "child", ⟨.ref 3, false⟩⟩, ⟨"x", "x", ⟨.primitive .double, false⟩⟩,
        ⟨"items", "items", ⟨.list .null false, false⟩⟩]⟩ := by decide +kernel
  rcases hreach.mergeClasses_spec hkeyed hsep hne hca hcb with
    ⟨hra, hrb, hrest, c, hfind, hunion, hnames⟩
  rw [find?_eq_at?, hrest] at hfind
  have hkeys : c.fields.map Field.key = ["only", "child", "x", "items"] := hunion.keys
  refine ⟨_, _, _, c, rfl, hreach, hkeyed, hsep, hne, hca, hcb, hlabels, ?_, ?_, ?_, hunion,
    hkeys, ?_⟩
  · rw [find?_eq_at?, hra, hfind]
  · rw [find?_eq_at?, hrb, hfind]
  · -- Under their common key, `A` leads to itself and `B` to `C`.
    have hmem : "child" ∈ c.fields.map Field.key := by simp [hkeys]
    rcases List.mem_map.mp hmem with ⟨g, hg, hkey⟩
    have hchild := hunion.unified g hg
    simp only [hkey, Field.find?, List.find?_cons, String.reduceEq, decide_false, decide_true,
      Unified] at hchild
    exact hchild.2.of_refs.1
  · rw [(hnames hlabels).1.names, hkeys]
    decide +kernel

end ClassTable

end DartModels
