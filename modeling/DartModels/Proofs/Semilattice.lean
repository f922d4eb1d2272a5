import DartModels.Proofs.Conformance
import Mathlib.Order.Bounds.Basic

/-!
# The semilattice of slots

Where no class is involved, joining is a matter of order alone.

`Shape.Within` orders shapes by what they admit: null lies below everything,
everything lies below dynamic, an integer lies below a double, and lists are
ordered as their elements are. A slot adds whether it may be null. The clauses
of the join follow the order from case to case, and what makes them a least
upper bound is that shapes of different kinds have no bound but dynamic. That is
the case in which something is given up, so it is looked at by itself.

A row of slots is joined from the left, each result with the next slot. The
bounds of the row stay the same when its first two slots are replaced by their
join, and the last slot that is left is the least of them. Everything else
follows without another induction. Two rows with the same bounds have the same
join, whatever the order of their slots is, however often a slot occurs, and
whether some of them have been joined beforehand.

Joining can do more when it comes to classes. It changes the table then, and two
classes that are made one lie below no class that was there before.

## Main definitions

* `Shape.Widening`: What an order of shapes has to have at least.
* `Slot.ClassFree`: A slot that refers to no class.

## Theorems

* `Shape.le_iff_forall_widening`: The order of shapes is the smallest of its
  kind.
* `Shape.eq_dynamic_of_clash`: Shapes that clash have no bound but dynamic.
* `Slot.isLUB_joinWith`: A join is the least upper bound of its sides.
* `ClassTable.isLUB_joinAll`: So is the join of a row.
* `ClassTable.joinSlots_semilattice`: The join of class-free slots, and what
  does not matter to it.
-/

namespace DartModels

namespace Shape

/-! ### The order -/

/-- Shapes that are within each other are equal. -/
theorem Within.antisymm {x y : Shape} (h : x.Within y) (h' : y.Within x) : x = y := by
  induction h with
  | null y =>
      -- Below null there is only null.
      cases h' with
      | null => rfl
      | same => rfl
  | dynamic x =>
      cases h' with
      | dynamic => rfl
      | same => rfl
  | widen => nomatch h'
  | same p => rfl
  | list h hn ih =>
      cases h' with
      | list h' hm => rw [ih h', Bool.eq_iff_iff.mpr ⟨hn, hm⟩]
  | ref id => rfl

instance : PartialOrder Shape where
  le := Within
  le_refl := Within.refl
  le_trans _ _ _ := Within.trans
  le_antisymm _ _ := Within.antisymm

/-- What an order of shapes has to have at least: null is its bottom and dynamic
    its top, an integer lies below a double, and a list lies below another if its
    elements do. Elements that may be null lie above those that may not. -/
structure Widening (R : Shape → Shape → Prop) : Prop where
  refl : ∀ x, R x x
  trans : ∀ x y z, R x y → R y z → R x z
  null : ∀ x, R null x
  dynamic : ∀ x, R x dynamic
  double : R (.primitive .int) (.primitive .double)
  list : ∀ x y n m, R x y → (n = true → m = true) → R (.list x n) (.list y m)

/-- The order of shapes has all of this. -/
theorem widening_le : Widening fun x y => x ≤ y where
  refl := Within.refl
  trans _ _ _ := Within.trans
  null := .null
  dynamic := .dynamic
  double := .widen
  list _ _ _ _ := .list

/-- The order of shapes is generated by these rules. -/
theorem le_iff_forall_widening {x y : Shape} : x ≤ y ↔ ∀ R, Widening R → R x y := by
  constructor
  · intro h R hR
    induction h with
    | null y => exact hR.null y
    | dynamic x => exact hR.dynamic x
    | widen => exact hR.double
    | same p => exact hR.refl _
    | list _ hn ih => exact hR.list _ _ _ _ ih hn
    | ref id => exact hR.refl _
  · intro h
    exact h _ widening_le

/-- Null is the bottom. -/
theorem null_le (x : Shape) : null ≤ x :=
  .null x

/-- The top is `dynamic`. -/
theorem le_dynamic (x : Shape) : x ≤ dynamic :=
  .dynamic x

/-- A shape other than null lies below dynamic and below shapes of its kind. -/
theorem kind_eq_of_le {x w : Shape} (h : x ≤ w) (hx : x ≠ null) (hw : w ≠ dynamic) :
    x ≠ dynamic ∧ x.kind = w.kind := by
  cases h with
  | null => exact absurd rfl hx
  | dynamic => exact absurd rfl hw
  | widen => exact ⟨by simp, rfl⟩
  | same p => exact ⟨hw, rfl⟩
  | list _ _ => exact ⟨by simp, rfl⟩
  | ref id => exact ⟨by simp, rfl⟩

/-- Shapes that clash have no bound but dynamic. -/
theorem eq_dynamic_of_clash {x y w : Shape} (h : Clash x y) (hx : x ≤ w) (hy : y ≤ w) :
    w = dynamic := by
  rcases h with ⟨hxn, hyn, hclash⟩
  by_contra hw
  rcases kind_eq_of_le hx hxn hw with ⟨hxd, hxk⟩
  rcases kind_eq_of_le hy hyn hw with ⟨hyd, hyk⟩
  -- Both sides would have the kind of their bound.
  rcases hclash with rfl | rfl | hne
  · exact hxd rfl
  · exact hyd rfl
  · exact hne (hxk.trans hyk.symm)

/-! ### The join of two shapes -/

variable {merge : ClassMerge} {t : ClassTable}

/-- Without classes, a join leaves the table as it is and answers with the least
    shape above both sides, which is without classes again. -/
theorem joinWith_least {x y : Shape} (hx : x.ids = []) (hy : y.ids = []) :
    (x.joinWith merge t y).2 = t ∧ (x.joinWith merge t y).1.ids = [] ∧
      ∀ w, (x.joinWith merge t y).1 ≤ w ↔ x ≤ w ∧ y ≤ w := by
  refine joinWith_induction
    (P := fun x y r => x.ids = [] → y.ids = [] →
      r.2 = t ∧ r.1.ids = [] ∧ ∀ w, r.1 ≤ w ↔ x ≤ w ∧ y ≤ w)
    ?_ ?_ ?_ ?_ ?_ ?_ ?_ ?_ x y hx hy
  · intro y _ hy
    exact ⟨rfl, hy, fun w => ⟨fun h => ⟨null_le w, h⟩, And.right⟩⟩
  · intro x hx _
    exact ⟨rfl, hx, fun w => ⟨fun h => ⟨h, null_le w⟩, And.left⟩⟩
  · intro _ _
    exact ⟨rfl, rfl, fun w => ⟨fun h => ⟨Within.widen.trans h, h⟩, And.right⟩⟩
  · intro _ _
    exact ⟨rfl, rfl, fun w => ⟨fun h => ⟨h, Within.widen.trans h⟩, And.left⟩⟩
  · intro p _ _
    exact ⟨rfl, rfl, fun w => ⟨fun h => ⟨h, h⟩, And.left⟩⟩
  · -- Two lists: elements are joined, and may be null if those of either side may.
    intro x n y m ih hx hy
    rcases ih hx hy with ⟨htable, hids, hleast⟩
    refine ⟨htable, hids, fun w => ?_⟩
    have hnull : ∀ k : Bool, ((n || m) = true → k = true) ↔
        (n = true → k = true) ∧ (m = true → k = true) := fun k => by
      rw [Bool.or_eq_true, or_imp]
    constructor
    · intro h
      cases h with
      | dynamic => exact ⟨.dynamic _, .dynamic _⟩
      | list hz hk =>
          rcases (hleast _).mp hz with ⟨hxz, hyz⟩
          rcases (hnull _).mp hk with ⟨hkn, hkm⟩
          exact ⟨.list hxz hkn, .list hyz hkm⟩
    · -- A bound of both lists is dynamic or a list that bounds the elements.
      rintro ⟨hxw, hyw⟩
      cases hxw with
      | dynamic => exact .dynamic _
      | list hxz hkn =>
          cases hyw with
          | list hyz hkm =>
              exact .list ((hleast _).mpr ⟨hxz, hyz⟩) ((hnull _).mpr ⟨hkn, hkm⟩)
  · intro a b ha _
    -- A reference names a class, so this case is excluded.
    exact absurd ha (by simp [ids])
  · intro x y hclash _ _
    refine ⟨rfl, rfl, fun w => ⟨fun h => ?_, fun h => ?_⟩⟩
    · exact ⟨(le_dynamic x).trans h, (le_dynamic y).trans h⟩
    · rw [eq_dynamic_of_clash hclash h.1 h.2]

end Shape

namespace Slot

/-- A slot is as wide as another if its shape is, and if it may be null whenever
    the other may. -/
instance : PartialOrder Slot where
  le a b := a.shape ≤ b.shape ∧ (a.nullable = true → b.nullable = true)
  le_refl a := ⟨le_refl a.shape, id⟩
  le_trans _ _ _ h h' := ⟨h.1.trans h'.1, fun hn => h'.2 (h.2 hn)⟩
  le_antisymm a b h h' := by
    rcases a with ⟨x, n⟩
    rcases b with ⟨y, m⟩
    rw [show x = y from le_antisymm h.1 h'.1, show n = m from Bool.eq_iff_iff.mpr ⟨h.2, h'.2⟩]

/-- The order of slots, spelled out. -/
theorem le_iff {a b : Slot} :
    a ≤ b ↔ a.shape ≤ b.shape ∧ (a.nullable = true → b.nullable = true) :=
  Iff.rfl

/-- A slot that refers to no class, at any depth. -/
def ClassFree (s : Slot) : Prop :=
  s.shape.ids = []

instance (s : Slot) : Decidable s.ClassFree :=
  inferInstanceAs (Decidable (s.shape.ids = []))

variable {merge : ClassMerge} {t : ClassTable} {a b : Slot}

/-- Joining slots without classes leaves the table alone. -/
theorem joinWith_snd (ha : a.ClassFree) (hb : b.ClassFree) : (a.joinWith merge t b).2 = t :=
  (Shape.joinWith_least ha hb).1

/-- It makes no reference to a class. -/
theorem ClassFree.joinWith (ha : a.ClassFree) (hb : b.ClassFree) :
    (a.joinWith merge t b).1.ClassFree :=
  (Shape.joinWith_least ha hb).2.1

/-- What lies above a join is what lies above both of its sides. -/
theorem joinWith_le_iff (ha : a.ClassFree) (hb : b.ClassFree) (w : Slot) :
    (a.joinWith merge t b).1 ≤ w ↔ a ≤ w ∧ b ≤ w := by
  -- Shape and nullability are joined separately.
  have hshape : (a.shape.joinWith merge t b.shape).1 ≤ w.shape ↔
      a.shape ≤ w.shape ∧ b.shape ≤ w.shape := (Shape.joinWith_least ha hb).2.2 w.shape
  have hnull : ((a.nullable || b.nullable) = true → w.nullable = true) ↔
      (a.nullable = true → w.nullable = true) ∧ (b.nullable = true → w.nullable = true) := by
    rw [Bool.or_eq_true, or_imp]
  simp only [le_iff, Slot.joinWith, hshape, hnull]
  exact and_and_and_comm

/-- A join is the least upper bound of its sides. -/
theorem isLUB_joinWith (ha : a.ClassFree) (hb : b.ClassFree) :
    IsLUB {a, b} (a.joinWith merge t b).1 := by
  rw [isLUB_iff_le_iff]
  intro w
  rw [joinWith_le_iff ha hb, upperBounds_insert, upperBounds_singleton]
  rfl

end Slot

/-! ### The join of a row -/

namespace ClassTable

variable {t : ClassTable}

/-- Joining a row is no more than finding its least upper bound. -/
theorem joinOnto_least {acc : Slot} {slots : List Slot} (hacc : acc.ClassFree)
    (hs : ∀ s ∈ slots, s.ClassFree) :
    (t.joinOnto acc slots).2 = t ∧ (t.joinOnto acc slots).1.ClassFree ∧
      ∀ w, (t.joinOnto acc slots).1 ≤ w ↔ ∀ s ∈ acc :: slots, s ≤ w := by
  induction slots generalizing acc with
  | nil => exact ⟨rfl, hacc, fun w => by rw [List.forall_mem_singleton]; rfl⟩
  | cons s rest ih =>
      rw [List.forall_mem_cons] at hs
      have htable : (t.joinSlots acc s).2 = t := Slot.joinWith_snd hacc hs.1
      have hnext : (t.joinSlots acc s).1.ClassFree := hacc.joinWith hs.1
      rcases ih hnext hs.2 with ⟨hrest, hfree, hleast⟩
      simp only [joinOnto, htable]
      refine ⟨hrest, hfree, fun w => ?_⟩
      -- The first two slots of the row are above what their join is above.
      have hjoin : (t.joinSlots acc s).1 ≤ w ↔ acc ≤ w ∧ s ≤ w :=
        Slot.joinWith_le_iff hacc hs.1 w
      rw [hleast, List.forall_mem_cons, List.forall_mem_cons, List.forall_mem_cons, hjoin,
        and_assoc]

/-- A row of slots without classes has a join, which is its least upper bound. -/
theorem isLUB_joinAll {slots : List Slot} (hne : slots ≠ []) (hs : ∀ s ∈ slots, s.ClassFree) :
    ∃ s, t.joinAll slots = (some s, t) ∧ s.ClassFree ∧ IsLUB {x | x ∈ slots} s := by
  cases slots with
  | nil => exact absurd rfl hne
  | cons acc rest =>
      rw [List.forall_mem_cons] at hs
      rcases joinOnto_least (t := t) hs.1 hs.2 with ⟨htable, hfree, hleast⟩
      refine ⟨(t.joinOnto acc rest).1, ?_, hfree, ?_⟩
      · rw [joinAll]
        exact congrArg (fun r => (some (t.joinOnto acc rest).1, r)) htable
      · rw [isLUB_iff_le_iff]
        exact hleast

/-- Rows with the same bounds have the same join. -/
theorem joinAll_congr {xs ys : List Slot} (hx : ∀ s ∈ xs, s.ClassFree)
    (hy : ∀ s ∈ ys, s.ClassFree) (hnil : xs = [] ↔ ys = [])
    (h : upperBounds {s | s ∈ xs} = upperBounds {s | s ∈ ys}) : t.joinAll xs = t.joinAll ys := by
  by_cases hempty : xs = []
  · rw [hempty, hnil.mp hempty]
  · rcases isLUB_joinAll (t := t) hempty hx with ⟨s, hs, _, hlub⟩
    rcases isLUB_joinAll (t := t) (fun he => hempty (hnil.mpr he)) hy with ⟨s', hs', _, hlub'⟩
    rw [hs, hs', ((isLUB_congr h).mp hlub).unique hlub']

/-- The joins of some groups have the bounds that the groups have together. -/
theorem upperBounds_flatten {groups : List (List Slot)}
    (hg : ∀ g ∈ groups, ∀ s ∈ g, s.ClassFree) : upperBounds {s | s ∈ groups.flatten} =
      upperBounds {s | s ∈ groups.filterMap fun g => (t.joinAll g).1} := by
  ext w
  simp only [mem_upperBounds, Set.mem_ofPred_eq, List.mem_flatten, List.mem_filterMap]
  constructor
  · rintro hw s ⟨g, hmem, hjoin⟩
    have hne : g ≠ [] := fun he => by simp [he, joinAll] at hjoin
    rcases isLUB_joinAll (t := t) hne (hg g hmem) with ⟨s', hs', _, hlub⟩
    rw [hs', Option.some.injEq] at hjoin
    rw [← hjoin, isLUB_le_iff hlub]
    exact fun x hx => hw x ⟨g, hmem, hx⟩
  · rintro hw s ⟨g, hmem, hs⟩
    -- A group with a slot has a join, and the slot lies below it.
    rcases isLUB_joinAll (t := t) (List.ne_nil_of_mem hs) (hg g hmem) with ⟨s', hs', _, hlub⟩
    exact (hlub.1 hs).trans (hw s' ⟨g, hmem, by rw [hs']⟩)

/-- Joining groups of slots first makes no difference. -/
theorem joinAll_flatten {groups : List (List Slot)}
    (hg : ∀ g ∈ groups, ∀ s ∈ g, s.ClassFree) : t.joinAll groups.flatten =
      t.joinAll (groups.filterMap fun g => (t.joinAll g).1) := by
  refine joinAll_congr (fun s hs => ?_) (fun s hs => ?_) ?_ (upperBounds_flatten hg)
  · rcases List.mem_flatten.mp hs with ⟨g, hmem, hs⟩
    exact hg g hmem s hs
  · rcases List.mem_filterMap.mp hs with ⟨g, hmem, hjoin⟩
    have hne : g ≠ [] := fun he => by simp [he, joinAll] at hjoin
    rcases isLUB_joinAll (t := t) hne (hg g hmem) with ⟨s', hs', hfree, _⟩
    rw [hs', Option.some.injEq] at hjoin
    exact hjoin ▸ hfree
  · -- Only the empty group has no join.
    have hnone : ∀ g ∈ groups, g = [] ↔ (t.joinAll g).1 = none := fun g hmem => by
      constructor
      · rintro rfl
        rfl
      · intro hjoin
        by_contra hne
        rcases isLUB_joinAll (t := t) hne (hg g hmem) with ⟨s', hs', _, _⟩
        simp [hs'] at hjoin
    rw [List.flatten_eq_nil_iff, List.filterMap_eq_nil_iff]
    exact forall₂_congr hnone

/-- Joining slots without classes finds least upper bounds, in the order that
    the rules of widening generate, and touches no class. So it does not matter
    in which order the slots of a row come, how often they do, or whether groups
    of them are joined first. The null that may not be null is neutral, also for
    slots with classes. -/
theorem joinSlots_semilattice (t : ClassTable) :
    (∀ x y : Shape, x ≤ y ↔ ∀ R, Shape.Widening R → R x y) ∧
      (∀ a b : Slot, a ≤ b ↔ a.shape ≤ b.shape ∧ (a.nullable = true → b.nullable = true)) ∧
      (∀ a b : Slot, a.ClassFree → b.ClassFree →
        (t.joinSlots a b).2 = t ∧ (t.joinSlots a b).1.ClassFree ∧
          IsLUB {a, b} (t.joinSlots a b).1) ∧
      (∀ slots : List Slot, slots ≠ [] → (∀ s ∈ slots, s.ClassFree) →
        ∃ s, t.joinAll slots = (some s, t) ∧ s.ClassFree ∧ IsLUB {x | x ∈ slots} s) ∧
      (∀ xs ys : List Slot, (∀ s ∈ xs, s.ClassFree) → (∀ s, s ∈ xs ↔ s ∈ ys) →
        t.joinAll xs = t.joinAll ys) ∧
      (∀ groups : List (List Slot), (∀ g ∈ groups, ∀ s ∈ g, s.ClassFree) →
        t.joinAll groups.flatten = t.joinAll (groups.filterMap fun g => (t.joinAll g).1)) ∧
      ∀ a : Slot,
        t.joinSlots ⟨.null, false⟩ a = (a, t) ∧ t.joinSlots a ⟨.null, false⟩ = (a, t) := by
  refine ⟨fun x y => Shape.le_iff_forall_widening, fun a b => Slot.le_iff, ?_, ?_, ?_, ?_, ?_⟩
  · intro a b ha hb
    exact ⟨Slot.joinWith_snd ha hb, ha.joinWith hb, Slot.isLUB_joinWith ha hb⟩
  · intro slots hne hs
    exact isLUB_joinAll hne hs
  · intro xs ys hx hmem
    -- A least upper bound is determined by what it bounds, in whatever order and however
    -- often.
    have hset : {s | s ∈ xs} = {s | s ∈ ys} := Set.ext hmem
    refine joinAll_congr hx (fun s hs => hx s ((hmem s).mpr hs)) ?_ (by rw [hset])
    simp only [List.eq_nil_iff_forall_not_mem, hmem]
  · intro groups hg
    exact joinAll_flatten hg
  · intro a
    refine ⟨?_, ?_⟩
    · simp only [joinSlots, Slot.joinWith, Shape.joinWith_null_left, Bool.false_or]
    · simp only [joinSlots, Slot.joinWith, Shape.joinWith_null_right, Bool.or_false]

/-- Lists of integers, of nulls and of doubles, some of which may be null, and an
    empty list: in whatever order they come and however they are grouped. -/
def sampleSlots : List Slot :=
  [⟨.list (.primitive .int) false, false⟩, ⟨.list .null true, false⟩,
    ⟨.list (.primitive .double) false, true⟩, ⟨.list .null false, false⟩]

/-- They are joined to a list of doubles that may be null. -/
theorem joinSlots_semilattice_lists : sampleSlots ≠ [] ∧ (∀ s ∈ sampleSlots, s.ClassFree) ∧
    empty.joinAll sampleSlots = (some ⟨.list (.primitive .double) true, true⟩, empty) ∧
    empty.joinAll sampleSlots = empty.joinAll (sampleSlots.reverse ++ sampleSlots) ∧
    IsLUB {x | x ∈ sampleSlots} ⟨.list (.primitive .double) true, true⟩ := by
  have hfree : ∀ s ∈ sampleSlots, s.ClassFree := by decide
  have hjoin : empty.joinAll sampleSlots =
      (some ⟨.list (.primitive .double) true, true⟩, empty) := rfl
  refine ⟨by decide, hfree, hjoin, ?_, ?_⟩
  · exact (joinSlots_semilattice empty).2.2.2.2.1 _ _ hfree fun s => by simp
  · rcases (joinSlots_semilattice empty).2.2.2.1 sampleSlots (by decide) hfree with
      ⟨s, hs, _, hlub⟩
    rw [hjoin, Prod.mk.injEq, Option.some.injEq] at hs
    exact hs.1 ▸ hlub

end ClassTable

end DartModels
