import DartModels.Proofs.Forwarding
import DartModels.Proofs.Join
import Mathlib.Data.List.Nodup

/-!
# Conformance

When a document fits the classes of a table, and when a slot admits all that
another one does.

A value conforms to a slot by its own form, down to objects, which conform to a
class if each of their keys is a field of it and each field they lack may be
null. Objects do not carry the number of a class, so this is not about which
class an object led to but about which classes would do for it.

Slots are ordered by what they admit, as far as this can be told from the slots
alone: nothing lies below a class but the class itself. References are compared
by the class they stand for in a given table, since several numbers may stand
for one class. Field lists are ordered accordingly. A list covers another if it
has all of its keys, with slots at least as wide, and may be null wherever the
other has no field at all.

## Main definitions

* `Conforms`: A value fits a slot.
* `Reaches`: The objects of a value with the classes they have to fit.
* `Shape.Within`: The order of shapes.
* `ClassTable.SlotWithin`, `ClassTable.Covers`: The orders of slots and of
  field lists as a table sees them.

## Theorems

* `Conforms.reaches`: In a value that conforms, all objects do.
* `Shape.Within.trans`, `ClassTable.Covers.trans`: The orders are transitive.
-/

namespace DartModels

open ClassTable

mutual

/-- Whether a value fits a slot. -/
def Conforms (t : ClassTable) : Json → Slot → Prop
  | .null, s => s.nullable = true
  | .bool _, s => s.shape = .dynamic ∨ s.shape = .primitive .bool
  | .number n, s => s.shape = .dynamic ∨ s.shape = .primitive .double ∨
      s.shape = .primitive .int ∧ n.isSigned64 = true
  | .string _, s => s.shape = .dynamic ∨ s.shape = .primitive .string
  | .array items, s =>
      match s.shape with
      | .list item nullable => ConformItems t items ⟨item, nullable⟩
      | shape => shape = .dynamic
  | .object members, s =>
      match s.shape with
      | .ref id =>
          match t.find? id with
          | some c => ConformMembers t members c.fields ∧
              ∀ f ∈ c.fields, (∀ m ∈ members, m.1 ≠ f.key) → f.slot.nullable = true
          | none => False
      | shape => shape = .dynamic

/-- Whether all elements of an array fit a slot. -/
def ConformItems (t : ClassTable) : List Json → Slot → Prop
  | [], _ => True
  | v :: rest, s => Conforms t v s ∧ ConformItems t rest s

/-- Whether all members of an object fit a field with their key. -/
def ConformMembers (t : ClassTable) : List (String × Json) → List Field → Prop
  | [], _ => True
  | (key, v) :: rest, fields =>
      (∃ f ∈ fields, f.key = key ∧ Conforms t v f.slot) ∧ ConformMembers t rest fields

end

/-- The object `w` is reached from a value in a slot by way of slots that name
    classes, and `id` is the class it is found in. -/
inductive Reaches (t : ClassTable) : Json → Slot → Json → ClassId → Prop where
  | here {members : List (String × Json)} {s : Slot} {id : ClassId} (hs : s.shape = .ref id) :
      Reaches t (.object members) s (.object members) (t.resolve id)
  | item {items : List Json} {s : Slot} {item : Shape} {nullable : Bool} {v w : Json}
      {id : ClassId} (hs : s.shape = .list item nullable) (hv : v ∈ items)
      (h : Reaches t v ⟨item, nullable⟩ w id) : Reaches t (.array items) s w id
  | member {members : List (String × Json)} {s : Slot} {k : ClassId} {c : ClassDef} {f : Field}
      {v w : Json} {id : ClassId} (hs : s.shape = .ref k) (hc : t.find? k = some c)
      (hf : f ∈ c.fields) (hv : (f.key, v) ∈ members) (h : Reaches t v f.slot w id) :
      Reaches t (.object members) s w id

/-- For a list that is not taken apart, all elements fit. -/
theorem conformItems_iff {t : ClassTable} {items : List Json} {s : Slot} :
    ConformItems t items s ↔ ∀ v ∈ items, Conforms t v s := by
  induction items with
  | nil => simp only [ConformItems, List.not_mem_nil, false_implies, implies_true]
  | cons v rest ih => simp only [ConformItems, ih, List.forall_mem_cons]

/-- For members that are not taken apart, all fit a field with their key. -/
theorem conformMembers_iff {t : ClassTable} {members : List (String × Json)}
    {fields : List Field} : ConformMembers t members fields ↔
      ∀ m ∈ members, ∃ f ∈ fields, f.key = m.1 ∧ Conforms t m.2 f.slot := by
  induction members with
  | nil => simp only [ConformMembers, List.not_mem_nil, false_implies, implies_true]
  | cons m rest ih =>
      rcases m with ⟨key, v⟩
      simp only [ConformMembers, ih, List.forall_mem_cons]

/-- Nothing but a list or `dynamic` takes an array. -/
theorem conforms_array_iff {t : ClassTable} {items : List Json} {s : Slot} :
    Conforms t (.array items) s ↔ s.shape = .dynamic ∨ ∃ item nullable,
      s.shape = .list item nullable ∧ ∀ v ∈ items, Conforms t v ⟨item, nullable⟩ := by
  rw [Conforms.eq_def]
  rcases hs : s.shape with p | ⟨item, nullable⟩ | id
  · simp [hs]
  · simp only [hs]
    constructor
    · exact fun h => Or.inr ⟨item, nullable, rfl, conformItems_iff.mp h⟩
    · rintro (hdyn | ⟨_, _, hlist, hitems⟩)
      · cases hdyn
      · cases hlist
        exact conformItems_iff.mpr hitems
  · simp [hs]

/-- Nothing but a class or `dynamic` takes an object. The fields whose keys the object
    lacks have to be nullable. -/
theorem conforms_object_iff {t : ClassTable} {members : List (String × Json)} {s : Slot} :
    Conforms t (.object members) s ↔ s.shape = .dynamic ∨ ∃ id c, s.shape = .ref id ∧
      t.find? id = some c ∧ (∀ m ∈ members, ∃ f ∈ c.fields, f.key = m.1 ∧ Conforms t m.2 f.slot) ∧
      ∀ f ∈ c.fields, (∀ m ∈ members, m.1 ≠ f.key) → f.slot.nullable = true := by
  rw [Conforms.eq_def]
  rcases hs : s.shape with p | ⟨item, nullable⟩ | id
  · simp [hs]
  · simp [hs]
  · rcases hc : t.find? id with _ | c
    · simp [hs, hc]
    · simp [hs, hc, conformMembers_iff]

mutual

/-- Whether a value fits a slot can be computed. -/
def decideConforms (t : ClassTable) : (v : Json) → (s : Slot) → Decidable (Conforms t v s)
  | .null, s => decidable_of_iff (s.nullable = true) (by rw [Conforms])
  | .bool _, s =>
      decidable_of_iff (s.shape = .dynamic ∨ s.shape = .primitive .bool) (by rw [Conforms])
  | .number n, s =>
      decidable_of_iff (s.shape = .dynamic ∨ s.shape = .primitive .double ∨
        s.shape = .primitive .int ∧ n.isSigned64 = true) (by rw [Conforms])
  | .string _, s =>
      decidable_of_iff (s.shape = .dynamic ∨ s.shape = .primitive .string) (by rw [Conforms])
  -- Lists and objects are decided by their parts, which are smaller.
  | .array items, ⟨.list item nullable, _⟩ =>
      have := decideConformItems t items ⟨item, nullable⟩
      decidable_of_iff (ConformItems t items ⟨item, nullable⟩) (by rw [Conforms])
  | .array _, ⟨.primitive p, _⟩ =>
      decidable_of_iff (Shape.primitive p = .dynamic) (by rw [Conforms])
  | .array _, ⟨.ref _, _⟩ => isFalse (by simp [Conforms])
  | .object members, ⟨.ref id, n⟩ =>
      match hc : t.find? id with
      | some c =>
          have := decideConformMembers t members c.fields
          decidable_of_iff (ConformMembers t members c.fields ∧ ∀ f ∈ c.fields,
            (∀ m ∈ members, m.1 ≠ f.key) → f.slot.nullable = true) (by simp only [Conforms, hc])
      | none => isFalse (by simp only [Conforms, hc, not_false_eq_true])
  | .object _, ⟨.primitive p, _⟩ =>
      decidable_of_iff (Shape.primitive p = .dynamic) (by rw [Conforms])
  | .object _, ⟨.list _ _, _⟩ => isFalse (by simp [Conforms])

/-- Whether all elements of an array fit can be computed, one after the other. -/
def decideConformItems (t : ClassTable) :
    (items : List Json) → (s : Slot) → Decidable (ConformItems t items s)
  | [], _ => isTrue (by rw [ConformItems]; exact trivial)
  | v :: rest, s =>
      have := decideConforms t v s
      have := decideConformItems t rest s
      decidable_of_iff (Conforms t v s ∧ ConformItems t rest s) (by rw [ConformItems])

/-- Whether all members of an object fit can be computed. The fields are searched for
    each. -/
def decideConformMembers (t : ClassTable) :
    (members : List (String × Json)) → (fields : List Field) →
      Decidable (ConformMembers t members fields)
  | [], _ => isTrue (by rw [ConformMembers]; exact trivial)
  | (key, v) :: rest, fields =>
      have := fun s => decideConforms t v s
      have := decideConformMembers t rest fields
      decidable_of_iff ((∃ f ∈ fields, f.key = key ∧ Conforms t v f.slot) ∧
        ConformMembers t rest fields) (by rw [ConformMembers])

end

instance (t : ClassTable) (v : Json) (s : Slot) : Decidable (Conforms t v s) :=
  decideConforms t v s

/-- The keys of every class are distinct. -/
def ClassTable.Keyed (t : ClassTable) : Prop :=
  ∀ i c, t.at? i = some c → (c.fields.map Field.key).Nodup

/-- With distinct keys, a key says which field is meant. -/
theorem Field.eq_of_key_eq {fields : List Field} (h : (fields.map key).Nodup) {f g : Field}
    (hf : f ∈ fields) (hg : g ∈ fields) (he : f.key = g.key) : f = g :=
  List.inj_on_of_nodup_map h hf hg he

/-- With distinct keys, the search by a key finds the field that has it. -/
theorem Field.find?_eq_some_iff {fields : List Field} (h : (fields.map key).Nodup) {k : String}
    {f : Field} : find? fields k = some f ↔ f ∈ fields ∧ f.key = k := by
  constructor
  · exact mem_of_find?
  · rintro ⟨hf, rfl⟩
    -- The search finds something, since the field itself is there to be found.
    rcases hfind : find? fields f.key with _ | g
    · exact absurd rfl (find?_eq_none_iff.mp hfind f hf)
    · rcases mem_of_find? hfind with ⟨hg, hkey⟩
      rw [eq_of_key_eq h hf hg hkey.symm]

/-- In a value that conforms, every object conforms to the class it is found
    in. -/
theorem Conforms.reaches {t : ClassTable} (hl : t.Linked) (hk : t.Keyed) {v w : Json} {s : Slot}
    {id : ClassId} (h : Conforms t v s) (hr : Reaches t v s w id) :
    Conforms t w (.required (.ref id)) := by
  induction hr with
  | here hs =>
      rw [conforms_object_iff] at h ⊢
      -- The way goes through slots that name classes, so none of them is `dynamic`.
      rcases h with hdyn | ⟨k, c, hk', hc, hrest⟩
      · rw [hs] at hdyn
        cases hdyn
      · rw [hs, Shape.ref.injEq] at hk'
        rw [find?_eq_at?, ← hk'] at hc
        refine Or.inr ⟨_, c, rfl, ?_, hrest⟩
        rw [find?_eq_at?, hl.resolve_idem, hc]
  | item hs hv _ ih =>
      rw [conforms_array_iff] at h
      rcases h with hdyn | ⟨item, nullable, hlist, hitems⟩
      · rw [hs] at hdyn
        cases hdyn
      · rw [hs, Shape.list.injEq] at hlist
        rcases hlist with ⟨rfl, rfl⟩
        exact ih (hitems _ hv)
  | member hs hc hf hv _ ih =>
      rw [conforms_object_iff] at h
      rcases h with hdyn | ⟨k, c, hk', hc', hmembers, _⟩
      · rw [hs] at hdyn
        cases hdyn
      · rw [hs, Shape.ref.injEq] at hk'
        rw [← hk', hc, Option.some.injEq] at hc'
        subst hc'
        rcases hmembers _ hv with ⟨g, hg, hkey, hconf⟩
        -- The class has one field of this key, which is the one on the way.
        rw [Field.eq_of_key_eq (hk _ _ hc) hf hg hkey.symm] at ih
        exact ih hconf

/-! ### The order of shapes -/

/-- Every value of the first shape is one of the second. -/
inductive Shape.Within : Shape → Shape → Prop where
  | null (y : Shape) : Within null y
  | dynamic (x : Shape) : Within x dynamic
  | widen : Within (.primitive .int) (.primitive .double)
  | same (p : Primitive) : Within (.primitive p) (.primitive p)
  | list {x y : Shape} {n m : Bool} (h : Within x y) (hn : n = true → m = true) :
      Within (.list x n) (.list y m)
  | ref (id : ClassId) : Within (.ref id) (.ref id)

/-- A shape is within itself. -/
theorem Shape.Within.refl (x : Shape) : x.Within x := by
  induction x with
  | primitive p => exact .same p
  | list x n ih => exact .list ih id
  | ref id => exact .ref id

/-- Within is transitive. Above anything but null there is little, so the cases are on
    what the second step can be. -/
theorem Shape.Within.trans {x y z : Shape} (h : x.Within y) (h' : y.Within z) : x.Within z := by
  induction h generalizing z with
  | null y => exact .null z
  | dynamic x =>
      cases h' with
      | dynamic => exact .dynamic x
      | same => exact .dynamic x
  | widen =>
      cases h' with
      | dynamic => exact .dynamic _
      | same => exact .widen
  | same p => exact h'
  | list h hn ih =>
      cases h' with
      | dynamic => exact .dynamic _
      | list h' hm => exact .list (ih h') fun hx => hm (hn hx)
  | ref id => exact h'

namespace ClassTable

variable {z t : ClassTable}

/-- Every value of the first slot is one of the second, as the table `z` sees
    the classes they refer to. -/
def SlotWithin (z : ClassTable) (a b : Slot) : Prop :=
  (a.nullable = true → b.nullable = true) ∧
    (a.shape.mapIds z.resolve).Within (b.shape.mapIds z.resolve)

/-- A slot is within itself, whatever the table. -/
theorem SlotWithin.refl (z : ClassTable) (a : Slot) : z.SlotWithin a a :=
  ⟨id, Shape.Within.refl _⟩

/-- Nullability only spreads, and shapes only widen. -/
theorem SlotWithin.trans {a b c : Slot} (h : z.SlotWithin a b) (h' : z.SlotWithin b c) :
    z.SlotWithin a c :=
  ⟨fun hn => h'.1 (h.1 hn), h.2.trans h'.2⟩

/-- What a field list makes of a key may become what another one makes of it:
    a key that was not there before may be null. -/
def FieldWithin (z : ClassTable) : Option Field → Option Field → Prop
  | some f, some g => z.SlotWithin f.slot g.slot
  | some _, none => False
  | none, some g => g.slot.nullable = true
  | none, none => True

/-- A key that came in on the way is nullable from then on, and one that was there is
    not lost. -/
theorem FieldWithin.trans {f g k : Option Field} (h : z.FieldWithin f g)
    (h' : z.FieldWithin g k) : z.FieldWithin f k := by
  cases f with
  | none =>
      cases g with
      | none => exact h'
      | some g =>
          cases k with
          | none => exact h'.elim
          | some k => exact h'.1 h
  | some f =>
      cases g with
      | none => exact h.elim
      | some g =>
          cases k with
          | none => exact h'.elim
          | some k => exact SlotWithin.trans h h'

/-- The second field list has whatever the first one has, and may be null where
    the first has nothing. -/
def Covers (z : ClassTable) (fields fields' : List Field) : Prop :=
  ∀ key, z.FieldWithin (Field.find? fields key) (Field.find? fields' key)

/-- To cover a list of fields, look at the keys of either one. -/
theorem covers_of_find? {xs ys : List Field}
    (hsome : ∀ key f, Field.find? xs key = some f →
      ∃ g, Field.find? ys key = some g ∧ z.SlotWithin f.slot g.slot)
    (hnone : ∀ key g, Field.find? ys key = some g → Field.find? xs key = none →
      g.slot.nullable = true) : z.Covers xs ys := by
  intro key
  cases hf : Field.find? xs key with
  | some f =>
      rcases hsome key f hf with ⟨g, hg, hle⟩
      rw [hg]
      exact hle
  | none =>
      cases hg : Field.find? ys key with
      | none => exact trivial
      | some g => exact hnone key g hg hf

/-- Covering is transitive key by key. -/
theorem Covers.trans {xs ys zs : List Field} (h : z.Covers xs ys) (h' : z.Covers ys zs) :
    z.Covers xs zs := fun key => (h key).trans (h' key)

/-- A field list covers itself. -/
theorem Covers.refl (z : ClassTable) (fields : List Field) : z.Covers fields fields := by
  intro key
  cases Field.find? fields key with
  | none => exact trivial
  | some f => exact SlotWithin.refl z f.slot

/-- Renaming classes leaves the keys, by which fields are searched. -/
theorem find?_canonical (t : ClassTable) (fields : List Field) (key : String) :
    Field.find? (t.canonical fields) key =
      (Field.find? fields key).map (Field.mapIds t.resolve) := by
  rw [canonical, Field.find?, Field.find?, List.find?_map]
  rfl

/-- What is compared are the classes that references stand for, so they may be brought
    up to date first. -/
theorem fieldWithin_map {f g : Option Field} (hl : z.Linked) :
    z.FieldWithin (f.map (Field.mapIds z.resolve)) (g.map (Field.mapIds z.resolve)) ↔
      z.FieldWithin f g := by
  -- To rename by the table twice is to rename once.
  have hidem : ∀ x : Shape, (x.mapIds z.resolve).mapIds z.resolve = x.mapIds z.resolve := by
    intro x
    rw [Shape.mapIds_mapIds]
    exact Shape.mapIds_congr fun id _ => hl.resolve_idem id
  cases f with
  | none => cases g <;> exact Iff.rfl
  | some f =>
      cases g with
      | none => exact Iff.rfl
      | some g =>
          simp only [Option.map_some, FieldWithin, SlotWithin, Field.mapIds, Slot.mapIds, hidem]

/-- Which number of a class is used makes no difference. -/
theorem covers_canonical (hl : z.Linked) {xs ys : List Field} :
    z.Covers (z.canonical xs) (z.canonical ys) ↔ z.Covers xs ys := by
  refine forall_congr' fun key => ?_
  rw [find?_canonical, find?_canonical, fieldWithin_map hl]

/-- Covering depends on the fields up to the numbers they refer to classes by. -/
theorem Covers.congr (hl : z.Linked) {xs ys xs' ys' : List Field} (h : z.Covers xs ys)
    (hx : z.canonical xs' = z.canonical xs) (hy : z.canonical ys' = z.canonical ys) :
    z.Covers xs' ys' := by
  rw [← covers_canonical hl, hx, hy, covers_canonical hl]
  exact h

end ClassTable

end DartModels
