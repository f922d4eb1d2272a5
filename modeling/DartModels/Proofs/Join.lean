import DartModels.Json.Value
import DartModels.Shape.Join

/-!
# Joins by cases

What a join of two shapes can come to, as one rule of induction.

The clauses of the join overlap, and their order decides what happens where
they do. A proof that follows the clauses has to exclude the earlier ones again
and again. `joinWith_induction` does so once and leaves the cases that differ
in meaning: one side is null, both are numbers of different width, both are the
same primitive, both are lists, both are classes, or the two clash and nothing
but `dynamic` is above them.

The fields of a class are united key by key. What that does to the keys, and
where the fields of a union come from, depends on none of the joins.

## Main definitions

* `Shape.kind`: The kind of the values that a shape describes.
* `Shape.Clash`: No common shape but `dynamic`.
* `Shape.Settles`: The joins that need no look inside.
* `Field.Labelled`: Distinct keys, and the names that belong to them.

## Theorems

* `Shape.joinWith_induction`, `Shape.joinWith_rules`: A join by cases.
* `Field.mem_withNames`: Naming fields leaves their keys and slots.
* `Field.labelled_unionWith`: The fields of a union have distinct keys and the
  names that belong to these.
-/

namespace DartModels

namespace Shape

/-- The kind of the values of a shape. Nulls have none of their own, and
    neither have values that do not fit together. -/
def kind : Shape → Option Json.Kind
  | .primitive .bool => some .boolean
  | .primitive .int => some .number
  | .primitive .double => some .number
  | .primitive .string => some .string
  | .primitive .null => none
  | .primitive .dynamic => none
  | .list _ _ => some .array
  | .ref _ => some .object

/-- Two shapes whose values do not fit together. -/
def Clash (x y : Shape) : Prop :=
  x ≠ null ∧ y ≠ null ∧ (x = dynamic ∨ y = dynamic ∨ x.kind ≠ y.kind)

variable {merge : ClassMerge} {t : ClassTable} {x y : Shape}

/-- Null is neutral on the right as well. -/
theorem joinWith_null_right (merge : ClassMerge) (t : ClassTable) (x : Shape) :
    joinWith merge t x null = (x, t) := by
  cases x with
  | primitive p => cases p <;> rfl
  | list x n => rfl
  | ref a => rfl

/-- Values that do not fit together have no common shape but `dynamic`. -/
theorem joinWith_of_clash (h : Clash x y) : joinWith merge t x y = (dynamic, t) := by
  rcases h with ⟨hx, hy, h⟩
  cases x with
  | primitive p =>
      cases y with
      | primitive q => cases p <;> cases q <;> simp_all [joinWith, kind]
      | list y m => cases p <;> simp_all [joinWith]
      | ref b => cases p <;> simp_all [joinWith]
  | list x n =>
      cases y with
      | primitive q => cases q <;> simp_all [joinWith]
      | list y m => simp [kind] at h
      | ref b => rfl
  | ref a =>
      cases y with
      | primitive q => cases q <;> simp_all [joinWith]
      | list y m => rfl
      | ref b => simp [kind] at h

/-- Two primitives clash unless they are numbers, the same, or one is null. -/
theorem primitive_cases (p q : Primitive) : p = .null ∨ q = .null ∨ p = q ∨
    (p = .int ∧ q = .double) ∨ (p = .double ∧ q = .int) ∨ Clash (.primitive p) (.primitive q) := by
  cases p <;> cases q <;> simp [Clash, kind]

/-- A property of the two sides of a join and of its result holds if it holds
    in each of the cases that a join has. -/
theorem joinWith_induction {P : Shape → Shape → Shape × ClassTable → Prop}
    (nullLeft : ∀ y, P null y (y, t)) (nullRight : ∀ x, P x null (x, t))
    (intDouble : P (.primitive .int) (.primitive .double) (.primitive .double, t))
    (doubleInt : P (.primitive .double) (.primitive .int) (.primitive .double, t))
    (same : ∀ p, P (.primitive p) (.primitive p) (.primitive p, t))
    (list : ∀ x n y m, P x y (joinWith merge t x y) →
      P (.list x n) (.list y m)
        (.list (joinWith merge t x y).1 (n || m), (joinWith merge t x y).2))
    (ref : ∀ a b, P (.ref a) (.ref b) (.ref (merge t a b).1, (merge t a b).2))
    (clash : ∀ x y, Clash x y → P x y (dynamic, t)) (x y : Shape) :
    P x y (joinWith merge t x y) := by
  have hnull : ∀ x, P x null (joinWith merge t x null) := fun x => by
    rw [joinWith_null_right]
    exact nullRight x
  have hclash : ∀ x y, Clash x y → P x y (joinWith merge t x y) := fun x y h => by
    rw [joinWith_of_clash h]
    exact clash x y h
  -- The clauses of a join overlap at null, so null is split off before the rest.
  induction x generalizing y with
  | primitive p =>
      by_cases hp : p = .null
      · subst hp
        rw [joinWith_null_left]
        exact nullLeft y
      cases y with
      | primitive q =>
          -- Two primitive types are equal, are the two kinds of number, or clash.
          rcases primitive_cases p q with rfl | rfl | rfl | ⟨rfl, rfl⟩ | ⟨rfl, rfl⟩ | h
          · exact absurd rfl hp
          · exact hnull _
          · cases p <;> exact same _
          · exact intDouble
          · exact doubleInt
          · exact hclash _ _ h
      | list y m =>
          refine hclash _ _ ⟨by simpa using hp, by simp, ?_⟩
          cases p <;> simp_all [kind]
      | ref b =>
          refine hclash _ _ ⟨by simpa using hp, by simp, ?_⟩
          cases p <;> simp_all [kind]
  | list x n ih =>
      cases y with
      | primitive q =>
          by_cases hq : q = .null
          · exact hq ▸ hnull _
          · refine hclash _ _ ⟨by simp, by simpa using hq, ?_⟩
            cases q <;> simp_all [kind]
      | list y m => exact list x n y m (ih y)
      | ref b => exact hclash _ _ ⟨by simp, by simp, by simp [kind]⟩
  | ref a =>
      cases y with
      | primitive q =>
          by_cases hq : q = .null
          · exact hq ▸ hnull _
          · refine hclash _ _ ⟨by simp, by simpa using hq, ?_⟩
            cases q <;> simp_all [kind]
      | list y m => exact hclash _ _ ⟨by simp, by simp, by simp [kind]⟩
      | ref b => exact ref a b

/-- The joins that are settled at once, without a look at elements or classes. -/
inductive Settles : Shape → Shape → Shape → Prop where
  | nullLeft (y : Shape) : Settles null y y
  | nullRight (x : Shape) : Settles x null x
  | intDouble : Settles (.primitive .int) (.primitive .double) (.primitive .double)
  | doubleInt : Settles (.primitive .double) (.primitive .int) (.primitive .double)
  | same (p : Primitive) : Settles (.primitive p) (.primitive p) (.primitive p)
  | clash {x y : Shape} (h : Clash x y) : Settles x y dynamic

/-- What is settled at once is what the join answers, and no class is touched. -/
theorem Settles.joinWith_eq {z : Shape} (h : Settles x y z) : joinWith merge t x y = (z, t) := by
  cases h with
  | nullLeft => exact joinWith_null_left merge t _
  | nullRight => exact joinWith_null_right merge t _
  | intDouble => rfl
  | doubleInt => rfl
  | same p => cases p <;> rfl
  | clash h => exact joinWith_of_clash h

/-- The rules that settle a join overlap, but they never disagree. -/
theorem Settles.unique {z z' : Shape} (h : Settles x y z) (h' : Settles x y z') : z = z' := by
  -- Both are what the join answers, whatever merges the classes.
  have heq : joinWith (fun t a _ => (a, t)) .empty x y = (z, .empty) := h.joinWith_eq
  rw [h'.joinWith_eq] at heq
  exact (Prod.mk.inj heq).1.symm

/-- Two lists are never settled at once. -/
theorem not_settles_list {x y z : Shape} {n m : Bool} : ¬ Settles (.list x n) (.list y m) z := by
  intro h
  cases h with
  | clash h => simp [Clash, kind] at h

/-- Neither are two classes. -/
theorem not_settles_ref {a b : ClassId} {z : Shape} : ¬ Settles (.ref a) (.ref b) z := by
  intro h
  cases h with
  | clash h => simp [Clash, kind] at h

/-- A join is settled at once, or it goes on with the elements of two lists, or
    with two classes. -/
theorem joinWith_rules {P : Shape → Shape → Shape × ClassTable → Prop}
    (settle : ∀ x y z, Settles x y z → P x y (z, t))
    (list : ∀ x n y m, P x y (joinWith merge t x y) →
      P (.list x n) (.list y m)
        (.list (joinWith merge t x y).1 (n || m), (joinWith merge t x y).2))
    (ref : ∀ a b, P (.ref a) (.ref b) (.ref (merge t a b).1, (merge t a b).2)) (x y : Shape) :
    P x y (joinWith merge t x y) :=
  joinWith_induction (fun y => settle _ _ _ (.nullLeft y)) (fun x => settle _ _ _ (.nullRight x))
    (settle _ _ _ .intDouble) (settle _ _ _ .doubleInt) (fun p => settle _ _ _ (.same p)) list ref
    (fun _ _ h => settle _ _ _ (.clash h)) x y

end Shape

namespace Identifier

theorem length_distinctFrom (taken keys : List String) :
    (distinctFrom taken keys).length = keys.length := by
  induction keys generalizing taken with
  | nil => rfl
  | cons key rest ih => simp only [distinctFrom, List.length_cons, ih]

theorem length_distinctFieldNames (keys : List String) :
    (distinctFieldNames keys).length = keys.length :=
  length_distinctFrom [] keys

end Identifier

namespace Field

/-- Naming fields changes nothing but their names. -/
theorem map_withNames {β : Type} (φ : Field → β) (hφ : ∀ f name, φ { f with name } = φ f)
    (fields : List Field) : (withNames fields).map φ = fields.map φ := by
  have hlen : fields.length = (Identifier.distinctFieldNames (fields.map key)).length := by
    rw [Identifier.length_distinctFieldNames, List.length_map]
  -- Names go to fields by position. The induction is on the fields for any row of names as
  -- long, since what is left of the names is not the names of what is left.
  unfold withNames
  generalize Identifier.distinctFieldNames (fields.map key) = names at hlen
  induction fields generalizing names with
  | nil => rfl
  | cons f rest ih =>
      cases names with
      | nil => exact absurd hlen (by simp)
      | cons name names =>
          have hrest : rest.length = names.length := by simpa using hlen
          rw [List.zipWith_cons_cons, List.map_cons, List.map_cons, hφ, ih names hrest]

/-- The fields of a class are in order: no key occurs twice, and every field has
    the name that its key gets among these keys. -/
structure Labelled (fields : List Field) : Prop where
  keys : (fields.map key).Nodup
  names : fields.map name = Identifier.distinctFieldNames (fields.map key)

/-- Fields with distinct keys are in order as soon as they are named. -/
theorem labelled_withNames {fields : List Field} (h : (fields.map key).Nodup) :
    Labelled (withNames fields) where
  keys := by rwa [map_withNames key fun _ _ => rfl]
  names := by
    have hlen : fields.length = (Identifier.distinctFieldNames (fields.map key)).length := by
      rw [Identifier.length_distinctFieldNames, List.length_map]
    rw [map_withNames key fun _ _ => rfl, withNames, List.map_zipWith,
      ← List.map_uncurry_zip_eq_zipWith]
    exact List.map_snd_zip (Nat.le_of_eq hlen.symm)

/-- Every named field has the key and the slot of one that was to be named. -/
theorem mem_withNames {fields : List Field} {g : Field} (h : g ∈ withNames fields) :
    ∃ f ∈ fields, g.key = f.key ∧ g.slot = f.slot := by
  -- A name is not seen in the list of keys and slots.
  have hmap := map_withNames (fun f => (f.key, f.slot)) (fun _ _ => rfl) fields
  have hmem : (g.key, g.slot) ∈ fields.map fun f => (f.key, f.slot) := by
    rw [← hmap]
    exact List.mem_map_of_mem h
  rcases List.mem_map.mp hmem with ⟨f, hf, heq⟩
  rw [Prod.mk.injEq] at heq
  exact ⟨f, hf, heq.1.symm, heq.2.symm⟩

/-- No field is lost when names are given. -/
theorem exists_mem_withNames {fields : List Field} {f : Field} (h : f ∈ fields) :
    ∃ g ∈ withNames fields, g.key = f.key ∧ g.slot = f.slot := by
  have hmap := map_withNames (fun f => (f.key, f.slot)) (fun _ _ => rfl) fields
  have hmem : (f.key, f.slot) ∈ (withNames fields).map fun f => (f.key, f.slot) := by
    rw [hmap]
    exact List.mem_map_of_mem h
  rcases List.mem_map.mp hmem with ⟨g, hg, heq⟩
  rw [Prod.mk.injEq] at heq
  exact ⟨g, hg, heq.1, heq.2⟩

theorem mem_of_find? {fields : List Field} {key : String} {f : Field}
    (h : find? fields key = some f) : f ∈ fields ∧ f.key = key :=
  ⟨List.mem_of_find?_eq_some h, by simpa using List.find?_some h⟩

theorem find?_eq_none_iff {fields : List Field} {key : String} :
    find? fields key = none ↔ ∀ f ∈ fields, f.key ≠ key := by
  simp only [find?, List.find?_eq_none, decide_eq_true_eq, ne_eq]

theorem find?_map_of_key {φ : Field → Field} (hφ : ∀ f, (φ f).key = f.key) (fields : List Field)
    (k : String) : find? (fields.map φ) k = (find? fields k).map φ := by
  rw [find?, List.find?_map]
  refine congrArg (Option.map φ) (congrArg (List.find? · fields) (funext fun f => ?_))
  simp only [Function.comp_apply, hφ]

/-- The slot of a key does not depend on the names. -/
theorem map_slot_find?_withNames (fields : List Field) (k : String) :
    (find? (withNames fields) k).map slot = (find? fields k).map slot := by
  -- A field is found by its key, and its slot taken, in the list of both.
  have hpairs : ∀ fs : List Field, (find? fs k).map slot =
      ((fs.map fun f => (f.key, f.slot)).find? (·.1 = k)).map Prod.snd := fun fs => by
    rw [List.find?_map, Option.map_map]
    rfl
  rw [hpairs, map_withNames (fun f => (f.key, f.slot)) fun _ _ => rfl, ← hpairs]

/-! ### Keys -/

/-- A field takes the place of the one with its key, or stands last. -/
theorem keys_insert (fields : List Field) (f : Field) : (insert fields f).map key =
    if f.key ∈ fields.map key then fields.map key else fields.map key ++ [f.key] := by
  induction fields with
  | nil => rfl
  | cons g rest ih =>
      by_cases hg : g.key = f.key
      · -- The field is put where the one with its key was, so the keys are the same.
        rw [insert, if_pos hg, List.map_cons, List.map_cons, hg, if_pos List.mem_cons_self]
      · rw [insert, if_neg hg, List.map_cons, ih, List.map_cons]
        by_cases hmem : f.key ∈ rest.map key
        · rw [if_pos hmem, if_pos (List.mem_cons_of_mem _ hmem)]
        · have hnot : f.key ∉ g.key :: rest.map key := fun h =>
            (List.mem_cons.mp h).elim (fun he => hg he.symm) hmem
          rw [if_neg hmem, if_neg hnot, List.cons_append]

theorem mem_insert {fields : List Field} {f g : Field} (h : g ∈ insert fields f) :
    g = f ∨ g ∈ fields := by
  induction fields with
  | nil => exact Or.inl (List.mem_singleton.mp h)
  | cons k rest ih =>
      by_cases hk : k.key = f.key
      · rw [insert, if_pos hk] at h
        rcases List.mem_cons.mp h with hg | hg
        · exact Or.inl hg
        · exact Or.inr (List.mem_cons_of_mem k hg)
      · rw [insert, if_neg hk] at h
        rcases List.mem_cons.mp h with rfl | hg
        · exact Or.inr List.mem_cons_self
        · exact (ih hg).imp_right (List.mem_cons_of_mem k)

/-- Inserting a field changes what its own key leads to, and nothing else. -/
theorem find?_insert (fields : List Field) (f : Field) (k : String) :
    find? (insert fields f) k = if f.key = k then some f else find? fields k := by
  induction fields with
  | nil =>
      by_cases hk : f.key = k <;> simp [insert, find?, hk]
  | cons g rest ih =>
      by_cases hg : g.key = f.key
      · by_cases hk : f.key = k
        · simp [insert, find?, hg, hk]
        · have hgk : ¬ g.key = k := fun h => hk (hg.symm.trans h)
          simp [insert, find?, hg, hk]
      · simp only [find?] at ih ⊢
        rw [insert, if_neg hg, List.find?_cons, List.find?_cons, ih]
        by_cases hk : g.key = k
        · have hfk : ¬ f.key = k := fun h => hg (hk.trans h.symm)
          simp [hk, hfk]
        · simp [hk]

/-- A field that is replaced leaves its key behind. -/
theorem exists_mem_insert {fields : List Field} (f : Field) {g : Field} (hg : g ∈ fields) :
    ∃ k ∈ insert fields f, k.key = g.key := by
  have hmem : g.key ∈ (insert fields f).map key := by
    rw [keys_insert]
    split
    · exact List.mem_map_of_mem hg
    · exact List.mem_append_left _ (List.mem_map_of_mem hg)
  exact List.mem_map.mp hmem

theorem nodup_insert {fields : List Field} (h : (fields.map key).Nodup) (f : Field) :
    ((insert fields f).map key).Nodup := by
  rw [keys_insert]
  split
  · exact h
  · rename_i hmem
    exact List.nodup_append.mpr ⟨h, List.pairwise_singleton _ _, fun k hk j hj hkj =>
      hmem (List.mem_singleton.mp hj ▸ hkj ▸ hk)⟩

theorem mem_foldl_insert {fields new : List Field} {g : Field}
    (h : g ∈ new.foldl insert fields) : g ∈ fields ∨ g ∈ new := by
  induction new generalizing fields with
  | nil => exact Or.inl h
  | cons f rest ih =>
      rcases ih h with hg | hg
      · rcases mem_insert hg with rfl | hg
        · exact Or.inr List.mem_cons_self
        · exact Or.inl hg
      · exact Or.inr (List.mem_cons_of_mem f hg)

theorem keys_foldl_insert (fields new : List Field) (k : String) :
    k ∈ (new.foldl insert fields).map key ↔ k ∈ fields.map key ∨ k ∈ new.map key := by
  induction new generalizing fields with
  | nil => simp
  | cons f rest ih =>
      rw [List.foldl_cons, ih, keys_insert]
      by_cases hmem : f.key ∈ fields.map key
      · rw [if_pos hmem, List.map_cons, List.mem_cons]
        constructor
        · exact Or.imp_right Or.inr
        · rintro (h | rfl | h)
          · exact Or.inl h
          · -- The key that is inserted was there already.
            exact Or.inl hmem
          · exact Or.inr h
      · rw [if_neg hmem, List.mem_append, List.mem_singleton, List.map_cons, List.mem_cons,
          or_assoc]

theorem exists_mem_foldl_insert (fields : List Field) {new : List Field} {g : Field}
    (hg : g ∈ new) : ∃ k ∈ new.foldl insert fields, k.key = g.key :=
  List.mem_map.mp ((keys_foldl_insert fields new g.key).mpr (Or.inr (List.mem_map_of_mem hg)))

theorem nodup_foldl_insert {fields : List Field} (h : (fields.map key).Nodup)
    (new : List Field) : ((new.foldl insert fields).map key).Nodup := by
  induction new generalizing fields with
  | nil => exact h
  | cons f rest ih => exact ih (nodup_insert h f)

variable {merge : ClassMerge}

/-- Taking a field in changes what its own key leads to. -/
theorem find?_uniteWith (merge : ClassMerge) (fields : List Field) (t : ClassTable) (f : Field)
    (k : String) :
    find? (uniteWith merge fields t f).1 k =
      if f.key = k then
        some (match find? fields f.key with
          | some g => { g with slot := (g.slot.joinWith merge t f.slot).1 }
          | none => f.optional)
      else find? fields k := by
  unfold uniteWith
  cases hfind : find? fields f.key with
  | some g =>
      simp only [find?_insert, (mem_of_find? hfind).2]
  | none =>
      -- A field of a new key stands last, so it is found unless an earlier one is.
      simp only [find?, List.find?_append]
      by_cases hk : f.key = k
      · have hnone : fields.find? (fun g => g.key = k) = none := hk ▸ hfind
        simp [hnone, hk, optional]
      · simp [hk, optional]

theorem keys_uniteWith (fields : List Field) (t : ClassTable) (f : Field) :
    (uniteWith merge fields t f).1.map key =
      if f.key ∈ fields.map key then fields.map key else fields.map key ++ [f.key] := by
  unfold uniteWith
  cases hfind : find? fields f.key with
  | some g => simp only [keys_insert, (mem_of_find? hfind).2]
  | none =>
      have hnot : f.key ∉ fields.map key := fun hmem => by
        rcases List.mem_map.mp hmem with ⟨g, hg, hkey⟩
        exact find?_eq_none_iff.mp hfind g hg hkey
      rw [if_neg hnot, List.map_append]
      rfl

/-- United fields have the keys they had, and behind them the new ones in the
    order in which they come. -/
theorem keys_uniteAllWith (fields : List Field) (t : ClassTable) {bs : List Field}
    (hb : (bs.map key).Nodup) : (uniteAllWith merge fields t bs).1.map key =
      fields.map key ++ (bs.map key).filter fun k => k ∉ fields.map key := by
  induction bs generalizing fields t with
  | nil => simp [uniteAllWith]
  | cons f rest ih =>
      rw [List.map_cons, List.nodup_cons] at hb
      rw [uniteAllWith, ih _ _ hb.2, keys_uniteWith, List.map_cons, List.filter_cons]
      by_cases hmem : f.key ∈ fields.map key
      · simp only [hmem, if_true, not_true_eq_false, decide_false, Bool.false_eq_true, if_false]
      · -- The key that is new now is none of those to come.
        have hrest : (rest.map key).filter (fun k => k ∉ fields.map key ++ [f.key]) =
            (rest.map key).filter fun k => k ∉ fields.map key :=
          List.filter_congr fun k hk => by
            have hne : k ≠ f.key := fun he => hb.1 (he ▸ hk)
            simp [hne]
        simp only [hmem, if_false, not_false_eq_true, decide_true, if_true, hrest,
          List.append_assoc, List.cons_append, List.nil_append]

theorem nodup_uniteWith {fields : List Field} (h : (fields.map key).Nodup) (t : ClassTable)
    (f : Field) : ((uniteWith merge fields t f).1.map key).Nodup := by
  rw [keys_uniteWith, ← keys_insert]
  exact nodup_insert h f

/-- Keys stay distinct when fields are united, even if those that are taken in repeat
    each other. -/
theorem nodup_uniteAllWith {fields : List Field} (h : (fields.map key).Nodup) (t : ClassTable)
    (bs : List Field) : ((uniteAllWith merge fields t bs).1.map key).Nodup := by
  induction bs generalizing fields t with
  | nil => exact h
  | cons f rest ih => exact ih (nodup_uniteWith h t f) _

theorem map_key_optional (p : Field → Prop) [DecidablePred p] (fields : List Field) :
    (fields.map fun f => if p f then f else optional f).map key = fields.map key := by
  rw [List.map_map]
  refine List.map_congr_left fun f _ => ?_
  simp only [Function.comp_apply]
  split <;> rfl

/-- United fields are in order, whatever they are made of. -/
theorem labelled_unionWith (t : ClassTable) (as bs : List Field) :
    Labelled (unionWith merge t as bs).1 := by
  -- Naming comes last, so the names are right whatever the keys are. Making fields optional
  -- keeps the keys, and uniting keeps them distinct.
  simp only [unionWith]
  refine labelled_withNames ?_
  rw [map_key_optional]
  have hnil : (([] : List Field).map key).Nodup := List.nodup_nil
  exact nodup_uniteAllWith (nodup_foldl_insert hnil as) t bs

end Field

end DartModels
