import DartModels.Proofs.Conformance
import DartModels.Proofs.Tightness

/-!
# Fitting

Whether the objects of a marked document fit the classes that stand for them.

Conformance compares an object with whatever class a slot names. Once the
objects are marked, there is a class that stands for each of them, and one can
ask of every object by itself whether that class describes it. A value then fits
a slot of objects if the slot names that class, and nothing further is asked
about the members. This is a question about single objects, while conformance
goes down to the bottom of a document.

The two are linked both ways. If every object is described by its class, then a
value that fits a slot conforms to it. And if the objects of a class are all
described by it, then the class covers every field list that they account for:
no shape is tight for values unless all slots that these values fit lie above
it.

## Main definitions

* `Fits`: A marked value fits a slot.
* `ClassTable.Describes`: An object is described by its class.

## Theorems

* `Fits.mono`: A value fits the slots above a slot that it fits.
* `Fits.conforms`: A value conforms if it fits and its objects are described.
* `Shape.Tight.within`: A tight shape lies below the slots that its values fit.
* `ClassTable.Grounded.covers`: A class that describes its objects covers what
  they account for.
-/

namespace DartModels

open Marked (Node)
open ClassTable

variable {z : ClassTable}

/-- A marked value fits a slot. Of an object, only the class matters. -/
inductive Fits (z : ClassTable) : Marked → Slot → Prop where
  | null {s : Slot} (hs : s.nullable = true) : Fits z .null s
  | dynamic {v : Marked} {s : Slot} (hv : v.kind ≠ .null) (hs : s.shape = .dynamic) : Fits z v s
  | bool (b : Bool) {s : Slot} (hs : s.shape = .primitive .bool) : Fits z (.bool b) s
  | int {n : Json.Number} {s : Slot} (hs : s.shape = .primitive .int)
      (hn : n.isSigned64 = true) : Fits z (.number n) s
  | double (n : Json.Number) {s : Slot} (hs : s.shape = .primitive .double) : Fits z (.number n) s
  | string (x : String) {s : Slot} (hs : s.shape = .primitive .string) : Fits z (.string x) s
  | array {items : List Marked} {s : Slot} {item : Shape} {nullable : Bool}
      (hs : s.shape = .list item nullable) (h : ∀ v ∈ items, Fits z v ⟨item, nullable⟩) :
      Fits z (.array items) s
  | object {id k : ClassId} {members : List (String × Marked)} {s : Slot} (hs : s.shape = .ref k)
      (hk : z.resolve k = z.resolve id) : Fits z (.object id members) s

/-- The class that stands for an object has all of its keys, with slots that the
    values fit, and may be null wherever the object has nothing. -/
def ClassTable.Describes (z : ClassTable) (n : Node) : Prop :=
  ∃ c, z.find? n.id = some c ∧ (∀ m ∈ n.members, ∃ f ∈ c.fields, f.key = m.1 ∧ Fits z m.2 f.slot) ∧
    ∀ f ∈ c.fields, n.Lacks f.key → f.slot.nullable = true

/-! ### Fitting can be computed -/

section Decide

variable {s : Slot}

/-- Null fits where null is allowed, and not by way of `dynamic`. -/
theorem fits_null_iff : Fits z .null s ↔ s.nullable = true := by
  refine ⟨fun h => ?_, .null⟩
  cases h with
  | null hs => exact hs
  | dynamic hv _ => exact absurd rfl hv

/-- Where a truth value fits. -/
theorem fits_bool_iff {b : Bool} :
    Fits z (.bool b) s ↔ s.shape = .dynamic ∨ s.shape = .primitive .bool := by
  refine ⟨fun h => ?_, fun h => h.elim (.dynamic nofun) (.bool b)⟩
  cases h with
  | dynamic _ hs => exact Or.inl hs
  | bool _ hs => exact Or.inr hs

/-- Where a number fits: as a double any does. -/
theorem fits_number_iff {n : Json.Number} : Fits z (.number n) s ↔ s.shape = .dynamic ∨
    s.shape = .primitive .double ∨ s.shape = .primitive .int ∧ n.isSigned64 = true := by
  refine ⟨fun h => ?_, ?_⟩
  · cases h with
    | dynamic _ hs => exact Or.inl hs
    | double _ hs => exact Or.inr (Or.inl hs)
    | int hs hn => exact Or.inr (Or.inr ⟨hs, hn⟩)
  · rintro (hs | hs | ⟨hs, hn⟩)
    · exact .dynamic nofun hs
    · exact .double n hs
    · exact .int hs hn

/-- Where a string fits. -/
theorem fits_string_iff {x : String} :
    Fits z (.string x) s ↔ s.shape = .dynamic ∨ s.shape = .primitive .string := by
  refine ⟨fun h => ?_, fun h => h.elim (.dynamic nofun) (.string x)⟩
  cases h with
  | dynamic _ hs => exact Or.inl hs
  | string _ hs => exact Or.inr hs

/-- An array fits a list if its elements fit the slot for elements. -/
theorem fits_array_iff {items : List Marked} : Fits z (.array items) s ↔ s.shape = .dynamic ∨
    ∃ item nullable, s.shape = .list item nullable ∧ ∀ v ∈ items, Fits z v ⟨item, nullable⟩ := by
  refine ⟨fun h => ?_, ?_⟩
  · cases h with
    | dynamic _ hs => exact Or.inl hs
    | array hs h => exact Or.inr ⟨_, _, hs, h⟩
  · rintro (hs | ⟨item, nullable, hs, h⟩)
    · exact .dynamic nofun hs
    · exact .array hs h

/-- The same for a slot that is known to be a list. -/
theorem fits_list_iff {items : List Marked} {item : Shape} {nullable n : Bool} :
    Fits z (.array items) ⟨.list item nullable, n⟩ ↔ ∀ v ∈ items, Fits z v ⟨item, nullable⟩ := by
  refine ⟨fun h => ?_, .array rfl⟩
  cases h with
  | dynamic _ hs => cases hs
  | array hs h =>
      cases hs
      exact h

/-- An object fits where its class is asked for, whatever its members are. -/
theorem fits_object_iff {id : ClassId} {members : List (String × Marked)} :
    Fits z (.object id members) s ↔
      s.shape = .dynamic ∨ ∃ k, s.shape = .ref k ∧ z.resolve k = z.resolve id := by
  refine ⟨fun h => ?_, ?_⟩
  · cases h with
    | dynamic _ hs => exact Or.inl hs
    | object hs hk => exact Or.inr ⟨_, hs, hk⟩
  · rintro (hs | ⟨k, hs, hk⟩)
    · exact .dynamic nofun hs
    · exact .object hs hk

mutual

/-- Whether a marked value fits a slot can be computed. -/
def decideFits (z : ClassTable) : (v : Marked) → (s : Slot) → Decidable (Fits z v s)
  | .null, _ => decidable_of_iff _ fits_null_iff.symm
  | .bool _, _ => decidable_of_iff _ fits_bool_iff.symm
  | .number _, _ => decidable_of_iff _ fits_number_iff.symm
  | .string _, _ => decidable_of_iff _ fits_string_iff.symm
  | .array items, ⟨.list item nullable, _⟩ =>
      have := decideFitsItems z items ⟨item, nullable⟩
      decidable_of_iff (∀ v ∈ items, Fits z v ⟨item, nullable⟩) fits_list_iff.symm
  | .array _, ⟨.primitive p, _⟩ =>
      decidable_of_iff (Shape.primitive p = .dynamic) (by simp [fits_array_iff])
  | .array _, ⟨.ref _, _⟩ => isFalse (by simp [fits_array_iff])
  | .object id _, ⟨.ref k, _⟩ =>
      decidable_of_iff (z.resolve k = z.resolve id) (by simp [fits_object_iff])
  | .object _ _, ⟨.primitive p, _⟩ =>
      decidable_of_iff (Shape.primitive p = .dynamic) (by simp [fits_object_iff])
  | .object _ _, ⟨.list _ _, _⟩ => isFalse (by simp [fits_object_iff])

/-- Whether all of several values fit a slot can be computed. -/
def decideFitsItems (z : ClassTable) :
    (items : List Marked) → (s : Slot) → Decidable (∀ v ∈ items, Fits z v s)
  | [], _ => isTrue fun _ hv => absurd hv List.not_mem_nil
  | v :: rest, s =>
      have := decideFits z v s
      have := decideFitsItems z rest s
      decidable_of_iff (Fits z v s ∧ ∀ w ∈ rest, Fits z w s) (by rw [List.forall_mem_cons])

end

instance (z : ClassTable) (v : Marked) (s : Slot) : Decidable (Fits z v s) :=
  decideFits z v s

instance (n : Node) (key : String) : Decidable (n.Lacks key) :=
  inferInstanceAs (Decidable (∀ m ∈ n.members, m.1 ≠ key))

instance (z : ClassTable) (n : Node) : Decidable (z.Describes n) :=
  match hc : z.find? n.id with
  | some c =>
      decidable_of_iff ((∀ m ∈ n.members, ∃ f ∈ c.fields, f.key = m.1 ∧ Fits z m.2 f.slot) ∧
        ∀ f ∈ c.fields, n.Lacks f.key → f.slot.nullable = true)
        (by simp only [Describes, hc, Option.some.injEq, exists_eq_left'])
  | none => isFalse (by simp only [Describes, hc, reduceCtorEq, false_and, exists_false,
      not_false_eq_true])

end Decide

/-! ### Slots above a slot -/

/-- Above a slot of a primitive other than null. -/
theorem ClassTable.SlotWithin.primitive {s g : Slot} (h : z.SlotWithin s g) {p : Primitive}
    (hs : s.shape = .primitive p) (hp : p ≠ .null) :
    g.shape = .dynamic ∨ g.shape = .primitive p ∨ p = .int ∧ g.shape = .primitive .double := by
  have hw := h.2
  rw [hs] at hw
  cases hg : g.shape with
  | primitive q =>
      rw [hg] at hw
      cases hw with
      | null => exact absurd rfl hp
      | dynamic => exact Or.inl rfl
      | widen => exact Or.inr (Or.inr ⟨rfl, rfl⟩)
      | same => exact Or.inr (Or.inl rfl)
  | list y m =>
      rw [hg] at hw
      cases hw
      exact absurd rfl hp
  | ref b =>
      rw [hg] at hw
      cases hw
      exact absurd rfl hp

/-- Above a slot of a list. -/
theorem ClassTable.SlotWithin.list {s g : Slot} (h : z.SlotWithin s g) {x : Shape} {n : Bool}
    (hs : s.shape = .list x n) : g.shape = .dynamic ∨
      ∃ y m, g.shape = .list y m ∧ z.SlotWithin ⟨x, n⟩ ⟨y, m⟩ := by
  have hw := h.2
  rw [hs] at hw
  cases hg : g.shape with
  | primitive q =>
      rw [hg] at hw
      cases hw
      exact Or.inl rfl
  | list y m =>
      rw [hg] at hw
      cases hw with
      | list hw hn => exact Or.inr ⟨y, m, rfl, hn, hw⟩
  | ref b =>
      rw [hg] at hw
      cases hw

/-- Above a slot of a class. The other slot may have another number for it. -/
theorem ClassTable.SlotWithin.ref {s g : Slot} (h : z.SlotWithin s g) {a : ClassId}
    (hs : s.shape = .ref a) : g.shape = .dynamic ∨
      ∃ b, g.shape = .ref b ∧ z.resolve b = z.resolve a := by
  have hw := h.2
  rw [hs] at hw
  cases hg : g.shape with
  | primitive q =>
      rw [hg] at hw
      cases hw
      exact Or.inl rfl
  | list y m =>
      rw [hg] at hw
      cases hw
  | ref b =>
      rw [hg] at hw
      simp only [Shape.mapIds] at hw
      generalize hb : z.resolve b = c at hw
      cases hw
      exact Or.inr ⟨b, rfl, hb⟩

/-- A value fits every slot above one that it fits. -/
theorem Fits.mono {v : Marked} {s g : Slot} (h : Fits z v s) (hle : z.SlotWithin s g) :
    Fits z v g := by
  -- By induction on how the value fits. Above a slot there is `dynamic`, the same shape,
  -- or the wider of the two number types.
  induction h generalizing g with
  | null hs => exact .null (hle.1 hs)
  | dynamic hv hs =>
      rcases hle.primitive hs (by simp) with hg | hg | ⟨hint, _⟩
      · exact .dynamic hv hg
      · exact .dynamic hv hg
      · cases hint
  | bool b hs =>
      rcases hle.primitive hs (by simp) with hg | hg | ⟨hint, _⟩
      · exact .dynamic (by simp [Marked.kind]) hg
      · exact .bool b hg
      · cases hint
  | @int n s hs hn =>
      rcases hle.primitive hs (by simp) with hg | hg | ⟨_, hg⟩
      · exact .dynamic (by simp [Marked.kind]) hg
      · exact .int hg hn
      · exact .double n hg
  | double n hs =>
      rcases hle.primitive hs (by simp) with hg | hg | ⟨hint, _⟩
      · exact .dynamic (by simp [Marked.kind]) hg
      · exact .double n hg
      · cases hint
  | string x hs =>
      rcases hle.primitive hs (by simp) with hg | hg | ⟨hint, _⟩
      · exact .dynamic (by simp [Marked.kind]) hg
      · exact .string x hg
      · cases hint
  | array hs _ ih =>
      rcases hle.list hs with hg | ⟨item, m, hg, hwithin⟩
      · exact .dynamic (by simp [Marked.kind]) hg
      · exact .array hg fun v hv => ih v hv hwithin
  | object hs hk =>
      rcases hle.ref hs with hg | ⟨b, hg, hb⟩
      · exact .dynamic (by simp [Marked.kind]) hg
      · exact .object hg (hb.trans hk)

/-! ### From fitting to conforming -/

/-- A value that fits conforms, given that its objects are described by their
    classes. An object of a class in `D` may also be asked whether it conforms. -/
theorem Fits.conforms {D : Set ClassId} (hl : z.Linked) {v : Marked} {g : Slot} (h : Fits z v g)
    (hn : ∀ n ∈ v.nodes, z.resolve n.id ∈ D ∨ z.Describes n)
    (hD : ∀ w id, Reaches z v.erase g w id → id ∈ D → Conforms z w (.required (.ref id))) :
    Conforms z v.erase g := by
  induction v using Marked.induction generalizing g with
  | null =>
      rw [Marked.erase, Conforms]
      cases h with
      | null hs => exact hs
      | dynamic hv => exact absurd rfl hv
  | bool b =>
      rw [Marked.erase, Conforms]
      cases h with
      | dynamic _ hs => exact Or.inl hs
      | bool _ hs => exact Or.inr hs
  | number n =>
      rw [Marked.erase, Conforms]
      cases h with
      | dynamic _ hs => exact Or.inl hs
      | int hs hsigned => exact Or.inr (Or.inr ⟨hs, hsigned⟩)
      | double _ hs => exact Or.inr (Or.inl hs)
  | string x =>
      rw [Marked.erase, Conforms]
      cases h with
      | dynamic _ hs => exact Or.inl hs
      | string _ hs => exact Or.inr hs
  | array items ih =>
      rw [Marked.erase, Marked.eraseItems_eq_map] at hD ⊢
      rw [Marked.nodes] at hn
      rw [conforms_array_iff]
      cases h with
      | dynamic _ hs => exact Or.inl hs
      | @array _ _ item nullable hs hitems =>
          refine Or.inr ⟨item, nullable, hs, fun w hw => ?_⟩
          rcases List.mem_map.mp hw with ⟨v, hv, rfl⟩
          refine ih v hv (hitems v hv) (fun n hmem => ?_) fun w id hr => ?_
          · exact hn n (Marked.mem_nodesOfItems.mpr ⟨v, hv, hmem⟩)
          · exact hD w id (.item hs (List.mem_map_of_mem hv) hr)
  | object id members ih =>
      rw [Marked.erase, Marked.eraseMembers_eq_map] at hD ⊢
      rw [Marked.nodes] at hn
      rw [conforms_object_iff]
      cases h with
      | dynamic _ hs => exact Or.inl hs
      | @object _ k _ _ hs hk =>
          rcases hn ⟨id, members⟩ List.mem_cons_self with hd | ⟨c, hc, hmembers, hlacks⟩
          · -- The class is not to be relied on, so the object has to be asked itself.
            have hself := hD _ _ (.here hs) (hk ▸ hd)
            rw [conforms_object_iff] at hself
            rcases hself with hdyn | ⟨j, c, hj, hc, hrest⟩
            · cases hdyn
            · cases hj
              rw [find?_eq_at?, hl.resolve_idem] at hc
              exact Or.inr ⟨k, c, hs, hc, hrest⟩
          -- The class describes the object, so its members fit, and conform by induction.
          · have hck : z.find? k = some c := by rwa [find?_eq_at?, hk]
            refine Or.inr ⟨k, c, hs, hck, fun m hm => ?_, fun f hf hnot => ?_⟩
            · rcases List.mem_map.mp hm with ⟨m, hm', rfl⟩
              rcases hmembers m hm' with ⟨f, hf, hkey, hfits⟩
              refine ⟨f, hf, hkey, ih m hm' hfits (fun n hmem => ?_) fun w id hr => ?_⟩
              · exact hn n (List.mem_cons_of_mem _ (Marked.mem_nodesOfMembers.mpr ⟨m, hm', hmem⟩))
              · exact hD w id (.member hs hck hf (hkey ▸ hm) hr)
            · exact hlacks f hf fun m hm => hnot _ (List.mem_map_of_mem hm)

/-! ### Classes and what their objects account for -/

/-- A class that keeps the fields of an object describes the object. -/
theorem ClassTable.describes_of_kept {D : Set ClassId} (hkz : z.Keyed) {n : Node}
    {fields : List Field} (hkeys : (fields.map Field.key).Nodup)
    (hkept : z.resolve n.id ∈ D ∨ ∃ c, z.find? n.id = some c ∧ z.Covers fields c.fields)
    (hfrom : ∀ f ∈ fields, ∃ v, (f.key, v) ∈ n.members)
    (hto : ∀ m ∈ n.members, ∃ f ∈ fields, f.key = m.1 ∧ Fits z m.2 f.slot) :
    z.resolve n.id ∈ D ∨ z.Describes n := by
  refine hkept.imp_right fun ⟨c, hc, hcovers⟩ => ⟨c, hc, fun m hm => ?_, fun g hg hlacks => ?_⟩
  · rcases hto m hm with ⟨f, hf, hkey, hfits⟩
    have hcov := hcovers m.1
    rw [(Field.find?_eq_some_iff hkeys).mpr ⟨hf, hkey⟩] at hcov
    cases hfind : Field.find? c.fields m.1 with
    | none =>
        rw [hfind] at hcov
        exact hcov.elim
    | some g =>
        rw [hfind] at hcov
        rcases Field.mem_of_find? hfind with ⟨hg, hgkey⟩
        exact ⟨g, hg, hgkey, hfits.mono hcov⟩
  -- A field that the object has nothing for came in with another list.
  · have hcov := hcovers g.key
    have hnone : Field.find? fields g.key = none := Field.find?_eq_none_iff.mpr fun f hf he => by
      rcases hfrom f hf with ⟨v, hv⟩
      exact hlacks _ hv he
    rw [hnone, (Field.find?_eq_some_iff (hkz _ c hc)).mpr ⟨hg, rfl⟩] at hcov
    exact hcov

/-- A slot that a value fits is of its kind. -/
theorem Fits.kind_eq {v : Marked} {g : Slot} (h : Fits z v g) (hv : v.kind ≠ .null) :
    g.shape = .dynamic ∨ g.shape.kind = some v.kind := by
  cases h with
  | null _ => exact absurd rfl hv
  | dynamic _ hs => exact Or.inl hs
  | bool _ hs | int hs _ | double _ hs | string _ hs | array hs _ | object hs _ =>
      rw [hs]
      exact Or.inr rfl

/-- What lies in arrays that fit a list fits the slot for elements. -/
theorem Fits.elements {vs : Set Marked} {g : Slot} {item : Shape} {nullable : Bool}
    (h : ∀ v ∈ vs, Fits z v g) (hg : g.shape = .list item nullable) :
    ∀ v ∈ elements vs, Fits z v ⟨item, nullable⟩ := by
  rintro v ⟨items, hitems, hv⟩
  cases h _ hitems with
  | dynamic _ hs => cases hg.symm.trans hs
  | array hs hitems' =>
      cases hg.symm.trans hs
      exact hitems' v hv

/-- A tight shape lies below every slot that the values fit. -/
theorem Shape.Tight.within {s : Shape} {vs : Set Marked} {g : Slot} (h : s.Tight z vs)
    (hfits : ∀ v ∈ vs, Fits z v g) :
    (s.mapIds z.resolve).Within (g.shape.mapIds z.resolve) := by
  have hdyn : g.shape = .dynamic → ∀ x : Shape, x.Within (g.shape.mapIds z.resolve) :=
    fun hg x => hg ▸ .dynamic x
  induction s generalizing vs g with
  | primitive p =>
      cases p with
      | null => exact .null _
      | bool =>
          rcases h with ⟨b, hb⟩
          cases hfits _ hb with
          | dynamic _ hs => exact hdyn hs _
          | bool _ hs =>
              rw [hs]
              exact .same _
      | int =>
          rcases h with ⟨n, hn, _⟩
          cases hfits _ hn with
          | dynamic _ hs => exact hdyn hs _
          | int hs _ =>
              rw [hs]
              exact .same _
          | double _ hs =>
              rw [hs]
              exact .widen
      | double =>
          -- A number that is wider than an integer keeps the slot from being one.
          rcases h with ⟨n, hn, hwide⟩
          cases hfits _ hn with
          | dynamic _ hs => exact hdyn hs _
          | int _ hsigned =>
              rw [hwide] at hsigned
              cases hsigned
          | double _ hs =>
              rw [hs]
              exact .same _
      | string =>
          rcases h with ⟨x, hx⟩
          cases hfits _ hx with
          | dynamic _ hs => exact hdyn hs _
          | string _ hs =>
              rw [hs]
              exact .same _
      | dynamic =>
          -- Values of two kinds fit no slot of one kind.
          rcases h with ⟨v, hv, w, hw, hvn, hwn, hne⟩
          rcases (hfits v hv).kind_eq hvn with hs | hvk
          · exact hdyn hs _
          · rcases (hfits w hw).kind_eq hwn with hs | hwk
            · exact hdyn hs _
            · exact absurd (Option.some.inj (hvk.symm.trans hwk)) hne
  | list item nullable ih =>
      rcases h with ⟨⟨items, hitems⟩, hnull, htight⟩
      cases hfits _ hitems with
      | dynamic _ hs => exact hdyn hs _
      | @array _ _ item' nullable' hs _ =>
          have helements := Fits.elements hfits hs
          rw [hs]
          -- A slot for elements may be null if one of the elements is.
          refine .list (ih htight helements fun hg x => by rw [hg]; exact .dynamic x) fun hn => ?_
          cases helements _ (hnull hn) with
          | null hs' => exact hs'
          | dynamic hv => exact absurd rfl hv
  | ref id =>
      rcases h with ⟨k, members, hmem, hres⟩
      cases hfits _ hmem with
      | dynamic _ hs => exact hdyn hs _
      | object hs hk =>
          rw [hs]
          simp only [mapIds, hk, hres]
          exact .ref _

/-- A class that describes all of its objects covers whatever fields they account
    for. -/
theorem ClassTable.Grounded.covers (hkz : z.Keyed) {S : Set Node} {i : ClassId}
    {fields : List Field} (h : z.Grounded S i fields) {c : ClassDef} (hc : z.find? i = some c)
    (hall : ∀ n ∈ z.nodesOf S i, z.Describes n) : z.Covers fields c.fields := by
  have hdesc : ∀ n ∈ z.nodesOf S i,
      (∀ m ∈ n.members, ∃ g ∈ c.fields, g.key = m.1 ∧ Fits z m.2 g.slot) ∧
        ∀ g ∈ c.fields, n.Lacks g.key → g.slot.nullable = true := by
    intro n hn
    rcases hall n hn with ⟨c', hc', hrest⟩
    rw [find?_eq_at?, hn.2, ← find?_eq_at?, hc, Option.some.injEq] at hc'
    exact hc' ▸ hrest
  -- What the objects have under a key fits the field with that key.
  have hfits : ∀ g ∈ c.fields, ∀ v ∈ z.valuesAt S i g.key, Fits z v g.slot := by
    rintro g hg v ⟨n, hn, hv⟩
    rcases (hdesc n hn).1 _ hv with ⟨f, hf, hkey, hfit⟩
    rwa [Field.eq_of_key_eq (hkz _ c hc) hf hg hkey] at hfit
  refine covers_of_find? (fun key f hf => ?_) fun key g hg hnone => ?_
  · rcases Field.mem_of_find? hf with ⟨hmem, rfl⟩
    have hfield := h.field f hmem
    rcases hfield.occurs with ⟨n, hn, v, hv⟩
    rcases (hdesc n hn).1 _ hv with ⟨g, hg, hkey, _⟩
    refine ⟨g, (Field.find?_eq_some_iff (hkz _ c hc)).mpr ⟨hg, hkey⟩, fun hnull => ?_, ?_⟩
    -- The key is missing in an object, or null in one. Either shows in the class.
    · rcases hfield.nullable hnull with ⟨n', hn', hl | hv'⟩
      · exact (hdesc n' hn').2 g hg (hkey ▸ hl)
      · have hfit := hfits g hg .null ⟨n', hn', hkey ▸ hv'⟩
        cases hfit with
        | null hs => exact hs
        | dynamic hkind => exact absurd rfl hkind
    · exact Shape.Tight.within hfield.tight fun v hv => hfits g hg v (hkey ▸ hv)
  · rcases Field.mem_of_find? hg with ⟨hmem, rfl⟩
    rcases h.absent g.key (Field.find?_eq_none_iff.mp hnone) with ⟨n, hn, hl⟩
    exact (hdesc n hn).2 g hmem hl

end DartModels
