import DartModels.Shape.Table
import Mathlib.Tactic.ByContra

/-!
# Entries of the class table

What each change of the class table does to its entries.

There are three kinds of changes. A class is added at the end (`push`), a class
gives way to another (`redirect`), or classes are replaced by variants of
themselves where they stand. Every operation is made of these, so each kind
gets its equations here and no later proof looks at an array.

The third kind has many members: references are updated, a class is renamed or
gets other fields, the index is rebuilt. They differ only in what becomes of a
class, and `Rewrites f` says that this, the function `f`, is all that happened.
A fact about rewriting is therefore proved once, for every `f`.

## Main definitions

* `at?`: The class of a live entry.
* `PointsTo`: The pointer of an entry whose class gave way.
* `Rewrites`: Live classes are replaced where they stand.

## Theorems

* `at?_redirect`, `pointsTo_redirect`: The entries when a class gives way.
* `size_redirect`: One class less is live then.
* `at?_push`, `size_push`: The entries when a class is added.
* `rewrites_settle`, `rewrites_rename`, `rewrites_setFields`,
  `rewrites_reindex`, `rewrites_reserveName`: The changes in place.
-/

namespace DartModels

namespace ClassTable

variable {t t' : ClassTable} {i j id source target : ClassId} {c : ClassDef}

/-- The class of a number whose entry is live. -/
def at? (t : ClassTable) (i : ClassId) : Option ClassDef :=
  t.entries[i]?.bind Entry.class?

/-- The class of `i` has given way, and its entry points to `j`. -/
def PointsTo (t : ClassTable) (i j : ClassId) : Prop :=
  t.entries[i]? = some (.merged j)

/-- A number stands for the class at the end of its chain of pointers. -/
theorem find?_eq_at? (t : ClassTable) (id : ClassId) : t.find? id = t.at? (t.resolve id) := rfl

theorem at?_eq_some_iff : t.at? i = some c ↔ t.entries[i]? = some (.live c) := by
  unfold at?
  rcases t.entries[i]? with _ | ⟨c'⟩ | ⟨into⟩ <;> simp [Entry.class?]

theorem lt_of_at? (h : t.at? i = some c) : i < t.entries.size := by
  rcases Array.getElem?_eq_some_iff.mp (at?_eq_some_iff.mp h) with ⟨hlt, _⟩
  exact hlt

theorem resolve_of_at? (h : t.at? i = some c) : t.resolve i = i :=
  resolve_of_live (at?_eq_some_iff.mp h)

theorem not_pointsTo_of_at? (h : t.at? i = some c) : ¬ t.PointsTo i j := by
  rw [PointsTo, at?_eq_some_iff.mp h]
  simp only [Option.some.injEq, reduceCtorEq, not_false_eq_true]

/-- The live classes are the classes of the live entries. -/
theorem mem_classes_iff : c ∈ t.classes ↔ ∃ i, t.at? i = some c := by
  simp only [classes, List.mem_filterMap, Array.mem_toList_iff, Array.mem_iff_getElem?]
  constructor
  · rintro ⟨e, ⟨i, hi⟩, hc⟩
    exact ⟨i, by simp only [at?, hi, Option.bind_some, hc]⟩
  · rintro ⟨i, hi⟩
    exact ⟨.live c, ⟨i, at?_eq_some_iff.mp hi⟩, rfl⟩

/-- The live classes, read off number by number. -/
theorem classes_eq_filterMap (t : ClassTable) :
    t.classes = (List.range t.entries.size).filterMap t.at? := by
  have hentries : (List.range t.entries.size).map (fun i => t.entries[i]?) =
      t.entries.toList.map some := by
    refine List.ext_getElem (by simp) fun i hi _ => ?_
    simp only [List.length_map, List.length_range] at hi
    simp [hi]
  -- The entries as a list are what is found at each number in turn.
  have hsome : t.classes = (t.entries.toList.map some).filterMap (·.bind Entry.class?) := by
    rw [List.filterMap_map]
    rfl
  rw [hsome, ← hentries, List.filterMap_map]
  rfl

theorem size_eq_countP (t : ClassTable) :
    t.size = t.entries.toList.countP fun e => e.class?.isSome := by
  rw [size, classes, List.length_filterMap_eq_countP]

/-- No table has more live classes than numbers. -/
theorem size_le (t : ClassTable) : t.size ≤ t.entries.size := by
  rw [size_eq_countP, ← Array.length_toList]
  exact List.countP_le_length

/-- Writing over the entry of a live class: the number of live classes is kept
    if the new entry has a class, and goes down by one if it has none. -/
theorem countP_set_of_at? (h : t.at? i = some c) (e : Entry) :
    (t.entries.setIfInBounds i e).toList.countP (fun e => e.class?.isSome) + 1 =
      t.size + if e.class?.isSome then 1 else 0 := by
  have hlt : i < t.entries.toList.length := by
    rw [Array.length_toList]
    exact lt_of_at? h
  have hget : t.entries.toList[i] = .live c := by
    rcases Array.getElem?_eq_some_iff.mp (at?_eq_some_iff.mp h) with ⟨_, heq⟩
    rw [Array.getElem_toList, heq]
  have hpos : 0 < t.entries.toList.countP fun e => e.class?.isSome :=
    List.countP_pos_iff.mpr ⟨_, List.getElem_mem hlt, by rw [hget]; rfl⟩
  -- The old entry counts as one, so one is to be taken off and the new one added.
  rw [Array.toList_setIfInBounds, List.countP_set hlt, hget, size_eq_countP]
  simp only [show (Entry.live c).class?.isSome = true from rfl, if_true]
  omega

/-! ### A class gives way -/

/-- When a class gives way its entry is the only one that is lost. -/
theorem at?_redirect (t : ClassTable) (source target i : ClassId) :
    (t.redirect source target).at? i = if i = source then none else t.at? i := by
  simp only [at?, redirect, Array.getElem?_setIfInBounds]
  by_cases hi : i = source
  · subst hi
    by_cases hlt : i < t.entries.size <;> simp [hlt, Entry.class?]
  · rw [if_neg (Ne.symm hi), if_neg hi]

theorem at?_redirect_eq_some_iff :
    (t.redirect source target).at? i = some c ↔ i ≠ source ∧ t.at? i = some c := by
  rw [at?_redirect]
  by_cases hi : i = source <;> simp [hi]

/-- When a class gives way there is one pointer more. The class has to be live before: a
    pointer that was there already would be bent instead. -/
theorem pointsTo_redirect (h : t.at? source = some c) (target : ClassId) :
    (t.redirect source target).PointsTo i j ↔
      if i = source then j = target else t.PointsTo i j := by
  simp only [PointsTo, redirect, Array.getElem?_setIfInBounds]
  by_cases hi : i = source
  · rw [if_pos hi.symm, if_pos (lt_of_at? h), if_pos hi]
    simp only [Option.some.injEq, Entry.merged.injEq, eq_comm]
  · rw [if_neg (Ne.symm hi), if_neg hi]

@[simp]
theorem entries_size_redirect (t : ClassTable) (source target : ClassId) :
    (t.redirect source target).entries.size = t.entries.size := by
  simp only [redirect, Array.size_setIfInBounds]

/-- One live class less. This is the measure of everything that merges classes. -/
theorem size_redirect (h : t.at? source = some c) (target : ClassId) :
    (t.redirect source target).size + 1 = t.size := by
  rw [size_eq_countP]
  exact countP_set_of_at? h (.merged target)

/-! ### A class is added -/

/-- A new class takes the next number, and no entry before it changes. -/
theorem at?_push (t : ClassTable) (name : String) (fields : List Field) (i : ClassId) :
    (t.push name fields).2.at? i =
      if i = t.entries.size then some ⟨t.entries.size, name, fields⟩ else t.at? i := by
  simp only [at?, push, Array.getElem?_push]
  by_cases hi : i = t.entries.size
  · rw [if_pos hi, if_pos hi]
    rfl
  · rw [if_neg hi, if_neg hi]

theorem at?_push_of_at? (name : String) (fields : List Field) (h : t.at? i = some c) :
    (t.push name fields).2.at? i = some c := by
  rw [at?_push, if_neg (Nat.ne_of_lt (lt_of_at? h)), h]

theorem pointsTo_push_of_lt (t : ClassTable) (name : String) (fields : List Field)
    (hi : i < t.entries.size) : (t.push name fields).2.PointsTo i j ↔ t.PointsTo i j := by
  simp only [PointsTo, push, Array.getElem?_push, if_neg (Nat.ne_of_lt hi)]

@[simp]
theorem entries_size_push (t : ClassTable) (name : String) (fields : List Field) :
    (t.push name fields).2.entries.size = t.entries.size + 1 := by
  simp only [push, Array.size_push]

theorem classes_push (t : ClassTable) (name : String) (fields : List Field) :
    (t.push name fields).2.classes = t.classes ++ [⟨t.entries.size, name, fields⟩] := by
  simp only [classes, push, Array.toList_push, List.filterMap_append]
  rfl

theorem size_push (t : ClassTable) (name : String) (fields : List Field) :
    (t.push name fields).2.size = t.size + 1 := by
  rw [size, classes_push, List.length_append]
  rfl

/-! ### Classes are replaced where they stand -/

/-- The class of each live entry `i` has become what `f i` makes of it, and
    neither a pointer nor the pinned class has changed. -/
structure Rewrites (f : ClassId → ClassDef → ClassDef) (t t' : ClassTable) : Prop where
  at?_eq : ∀ i, t'.at? i = (t.at? i).map (f i)
  pointsTo_iff : ∀ i j, t'.PointsTo i j ↔ t.PointsTo i j
  entries_size : t'.entries.size = t.entries.size
  size : t'.size = t.size
  pinned : t'.pinned = t.pinned

/-- A change of one class. -/
def onlyAt (k : ClassId) (g : ClassDef → ClassDef) (i : ClassId) (c : ClassDef) : ClassDef :=
  if i = k then g c else c

theorem onlyAt_self (k : ClassId) (g : ClassDef → ClassDef) : onlyAt k g k = g := by
  funext c
  rw [onlyAt, if_pos rfl]

theorem onlyAt_of_ne {k : ClassId} (g : ClassDef → ClassDef) (h : i ≠ k) :
    onlyAt k g i = fun c => c := by
  funext c
  rw [onlyAt, if_neg h]

theorem Rewrites.at?_eq_some {f : ClassId → ClassDef → ClassDef} (h : Rewrites f t t') :
    t'.at? i = some c ↔ ∃ c', t.at? i = some c' ∧ f i c' = c := by
  rw [h.at?_eq, Option.map_eq_some_iff]

theorem rewrites_reserveName (t : ClassTable) (name : String) :
    Rewrites (fun _ c => c) t (t.reserveName name) where
  at?_eq i := (Option.map_id' (x := t.at? i)).symm
  pointsTo_iff _ _ := Iff.rfl
  entries_size := rfl
  size := rfl
  pinned := rfl

theorem rewrites_reindex (t : ClassTable) : Rewrites (fun _ c => c) t t.reindex where
  at?_eq i := (Option.map_id' (x := t.at? i)).symm
  pointsTo_iff _ _ := Iff.rfl
  entries_size := rfl
  size := rfl
  pinned := rfl

/-- References are updated in every class at once. No class goes and no pointer moves,
    so that numbers still lead where they led. -/
theorem rewrites_settle (t : ClassTable) :
    Rewrites (fun _ => ClassDef.mapIds t.resolve) t t.settle where
  at?_eq i := by
    simp only [at?, settle, updateReferences, mapClasses, reindex, Array.getElem?_map]
    rcases t.entries[i]? with _ | ⟨c⟩ | ⟨into⟩ <;> rfl
  pointsTo_iff i j := by
    simp only [PointsTo, settle, updateReferences, mapClasses, reindex, Array.getElem?_map]
    rcases t.entries[i]? with _ | ⟨c⟩ | ⟨into⟩ <;> simp
  entries_size := by
    simp only [settle, updateReferences, mapClasses, reindex, Array.size_map]
  size := by
    rw [size_eq_countP, size_eq_countP]
    simp only [settle, updateReferences, mapClasses, reindex, Array.toList_map, List.countP_map]
    refine List.countP_congr fun e _ => ?_
    cases e <;> rfl
  pinned := rfl

/-- Writing a variant of the class that a number stands for over its entry. -/
theorem rewrites_of_entries_eq {g : ClassDef → ClassDef} (hc : t.find? id = some c)
    (he : t'.entries = t.entries.setIfInBounds (t.resolve id) (.live (g c)))
    (hp : t'.pinned = t.pinned) : Rewrites (onlyAt (t.resolve id) g) t t' where
  at?_eq i := by
    have hat : t.at? (t.resolve id) = some c := hc
    rw [at?, he, Array.getElem?_setIfInBounds]
    by_cases hi : i = t.resolve id
    · -- The one entry that is written over holds the class itself.
      rw [if_pos hi.symm, if_pos (lt_of_at? hat), hi, hat, onlyAt_self]
      rfl
    · rw [if_neg (Ne.symm hi), onlyAt_of_ne g hi, Option.map_id', at?]
  pointsTo_iff i j := by
    rw [PointsTo, he, Array.getElem?_setIfInBounds]
    by_cases hi : t.resolve id = i
    · subst hi
      -- A live entry points nowhere, before the change and after it.
      have hnot : ¬ t.PointsTo (t.resolve id) j := not_pointsTo_of_at? hc
      rw [if_pos rfl, if_pos (lt_of_at? (show t.at? (t.resolve id) = some c from hc))]
      simp only [Option.some.injEq, reduceCtorEq, hnot]
    · rw [if_neg hi, PointsTo]
  entries_size := by rw [he, Array.size_setIfInBounds]
  size := by
    have hcount := countP_set_of_at? (t := t) hc (.live (g c))
    rw [size_eq_countP, he]
    exact Nat.succ.inj hcount
  pinned := hp

/-- A number that stands for no class has nothing to replace. -/
theorem rewrites_of_find?_eq_none {g : ClassDef → ClassDef} (h : t.find? id = none) :
    Rewrites (onlyAt (t.resolve id) g) t t where
  at?_eq i := by
    have hat : t.at? (t.resolve id) = none := h
    by_cases hi : i = t.resolve id
    · rw [hi, hat, Option.map_none]
    · rw [onlyAt_of_ne g hi, Option.map_id']
  pointsTo_iff _ _ := Iff.rfl
  entries_size := rfl
  size := rfl
  pinned := rfl

/-- The name goes to the class that the number stands for, which need not be the one it
    was given out for. -/
theorem rewrites_rename (t : ClassTable) (id : ClassId) (name : String) :
    Rewrites (onlyAt (t.resolve id) fun c => { c with name }) t (t.rename id name) := by
  unfold rename
  -- A number that was never given out names no class, and then nothing is written.
  cases hf : t.find? id with
  | none => exact rewrites_of_find?_eq_none hf
  | some c => exact rewrites_of_entries_eq (g := fun c => { c with name }) hf rfl rfl

/-- So do the fields. -/
theorem rewrites_setFields (t : ClassTable) (id : ClassId) (fields : List Field) :
    Rewrites (onlyAt (t.resolve id) fun c => { c with fields }) t (t.setFields id fields) := by
  unfold setFields
  cases hf : t.find? id with
  | none => exact rewrites_of_find?_eq_none hf
  | some c => exact rewrites_of_entries_eq (g := fun c => { c with fields }) hf rfl rfl

end ClassTable

end DartModels
