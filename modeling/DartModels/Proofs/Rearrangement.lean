import DartModels.Proofs.Matching
import DartModels.Proofs.Soundness

/-!
# Rearranged arrays

What the order of the elements of an array has to do with the type of a document.

The join of types does not depend on an order, but types are joined by merging
classes, and what a class is at the moment of a merge does depend on what came
before. A field list can be lost in one order and survive in another. Objects
that share a class in one order can end up in two classes in another: after two
elements that do not fit together nothing is merged any more, and a class that is
equal to some other class halfway through an array becomes one with it for good.

This is all. The type of a place is determined by the values that belong to it.
It is no wider than the values make it, which holds of every catalog, and wide
enough for all of them if nothing was lost. So if each run describes all objects,
and the two runs put the same objects together, then they find the same types on
all paths, whatever their classes are called and however their fields are
ordered.

## Main definitions

* `TypeStep`, `Catalog.typeAt`: The type at a path of keys and elements.
* `SameGroups`: Two tables put the same objects together.
* `ClassTable.Settled`: A slot that values have made, and that they fit.
* `ClassTable.Aligned`: Two tables that describe matching objects in matching groups.

## Theorems

* `ClassTable.form_eq`: Matching values make shapes of one form.
* `ClassTable.Aligned.slotAt_eq`: Aligned tables have the same types on all paths.
* `Catalog.typeAt_eq_of_rearranged`: So do a document and a rearranged one.
* `Catalog.not_forall_typeAt_eq`: But not without conditions.
-/

namespace DartModels

open Marked (Node)
open ClassTable

/-! ### Types on paths -/

/-- A step into a type. -/
inductive TypeStep where
  | key (name : String)
  | element

/-- What kind of type a shape is. The class of an object is left open. -/
inductive Form where
  | primitive (p : Primitive)
  | list
  | object
  deriving DecidableEq

/-- The form of a shape. -/
def Shape.form : Shape → Form
  | .primitive p => .primitive p
  | .list _ _ => .list
  | .ref _ => .object

/-- The slot at a path below a slot, if the path exists. -/
def ClassTable.slotAt (t : ClassTable) (s : Slot) : List TypeStep → Option Slot
  | [] => some s
  | .element :: path =>
      match s.shape with
      | .list item nullable => slotAt t ⟨item, nullable⟩ path
      | _ => none
  | .key name :: path =>
      match s.shape with
      | .ref id => ((t.find? id).bind (·.field? name)).bind fun f => slotAt t f.slot path
      | _ => none

/-- Lists have the form of a list. -/
theorem Shape.form_eq_list_iff {x : Shape} :
    x.form = .list ↔ ∃ item nullable, x = .list item nullable := by
  cases x <;> simp [form]

/-- References have the form of an object. -/
theorem Shape.form_eq_object_iff {x : Shape} : x.form = .object ↔ ∃ id, x = .ref id := by
  cases x <;> simp [form]

section Steps

variable {t : ClassTable} {s : Slot} {path : List TypeStep} {k : String}

/-- A step to an element, where there is a list. -/
theorem ClassTable.slotAt_element {item : Shape} {nullable : Bool}
    (hs : s.shape = .list item nullable) :
    t.slotAt s (.element :: path) = t.slotAt ⟨item, nullable⟩ path := by
  rw [slotAt, hs]

/-- No such step leads anywhere else. -/
theorem ClassTable.slotAt_element_of_ne (hs : s.shape.form ≠ .list) :
    t.slotAt s (.element :: path) = none := by
  cases hx : s.shape with
  | list item nullable => exact absurd (hx ▸ rfl) hs
  | primitive _ | ref _ => rw [slotAt, hx]

/-- A step to a key, where there is a class. -/
theorem ClassTable.slotAt_key {id : ClassId} {c : ClassDef} (hs : s.shape = .ref id)
    (hc : t.find? id = some c) :
    t.slotAt s (.key k :: path) = (c.field? k).bind fun f => t.slotAt f.slot path := by
  rw [slotAt, hs]
  simp only [hc, Option.bind_some]

/-- No such step leads anywhere else. -/
theorem ClassTable.slotAt_key_of_ne (hs : s.shape.form ≠ .object) :
    t.slotAt s (.key k :: path) = none := by
  cases hx : s.shape with
  | ref id => exact absurd (hx ▸ rfl) hs
  | primitive _ | list _ _ => rw [slotAt, hx]

end Steps

/-- The type at a path from the root class: what kind it is and whether it may be
    null. -/
def Catalog.typeAt (c : Catalog) (path : List TypeStep) : Option (Form × Bool) :=
  (c.table.slotAt (.required (.ref c.root)) path).map fun s => (s.shape.form, s.nullable)

/-- Two tables put the same objects together. The objects are those of two markings
    of a document, place by place. -/
def SameGroups (z : ClassTable) (m : Marked) (z' : ClassTable) (m' : Marked) : Prop :=
  ∀ p ∈ m.nodes.zip m'.nodes, ∀ q ∈ m.nodes.zip m'.nodes,
    z.resolve p.1.id = z.resolve q.1.id ↔ z'.resolve p.2.id = z'.resolve q.2.id

/-- Marks that are found in the same place of two markings of a document. -/
def Marked.Twins (m m' : Marked) (i i' : ClassId) : Prop :=
  ∃ p ∈ m.nodes.zip m'.nodes, p.1.id = i ∧ p.2.id = i'

instance (z : ClassTable) (m : Marked) (z' : ClassTable) (m' : Marked) :
    Decidable (SameGroups z m z' m') :=
  inferInstanceAs (Decidable (∀ p ∈ m.nodes.zip m'.nodes, ∀ q ∈ m.nodes.zip m'.nodes,
    z.resolve p.1.id = z.resolve q.1.id ↔ z'.resolve p.2.id = z'.resolve q.2.id))

/-! ### Forms -/

/-- The order of forms, which does not look into lists and objects. -/
inductive Form.Below : Form → Form → Prop where
  | null (b : Form) : Below (.primitive .null) b
  | dynamic (a : Form) : Below a (.primitive .dynamic)
  | widen : Below (.primitive .int) (.primitive .double)
  | same (a : Form) : Below a a

/-- Forms that are below each other are the same. -/
theorem Form.Below.antisymm {a b : Form} (h : a.Below b) (h' : b.Below a) : a = b := by
  cases h with
  | same _ => rfl
  | null b => cases h' <;> rfl
  | dynamic a => cases h' <;> rfl
  | widen => cases h'

namespace Marked

variable {E : ClassId → ClassId → Prop} {v w : Marked}

/-- The form of the type of a value. -/
def form : Marked → Form
  | .null => .primitive .null
  | .bool _ => .primitive .bool
  | .number n => .primitive (Inference.numberShape n)
  | .string _ => .primitive .string
  | .array _ => .list
  | .object _ _ => .object

/-- Values that match have the same form. -/
theorem Matches.form_eq (h : Matches E v w) : v.form = w.form := by
  cases h <;> rfl

/-- They are of the same kind. -/
theorem Matches.kind_eq (h : Matches E v w) : v.kind = w.kind := by
  cases h <;> rfl

end Marked

namespace ClassTable

variable {E : ClassId → ClassId → Prop} {z z' : ClassTable} {S S' : Set Node}
  {vs ws : Set Marked} {v w : Marked} {s s' : Slot} {id id' : ClassId} {c c' : ClassDef}
  {f f' : Field} {k : String}

/-- A value that is not null fits no slot of a form below its own. -/
theorem form_below_of_fits (h : Fits z v s) (hv : v.kind ≠ .null) :
    v.form.Below s.shape.form := by
  cases h with
  | null _ => exact absurd rfl hv
  | dynamic _ hs => exact hs ▸ .dynamic _
  | bool _ hs | string _ hs | array hs _ | object hs _ => exact hs ▸ .same _
  | int hs hn =>
      rw [hs, Marked.form, Inference.numberShape, if_pos hn]
      exact .same _
  | double n hs =>
      rw [hs, Marked.form, Inference.numberShape]
      split
      · exact .widen
      · exact .same _

/-- A tight shape that has a form has a value of that form. -/
theorem exists_form_of_tight {x : Shape} (h : x.Tight z vs) (hnull : x ≠ .null)
    (hdyn : x ≠ .dynamic) : ∃ v ∈ vs, v.kind ≠ .null ∧ x.form = v.form := by
  cases x with
  | primitive p =>
      cases p with
      | bool => exact h.elim fun b hb => ⟨_, hb, by simp [Marked.kind], rfl⟩
      | int =>
          rcases h with ⟨n, hn, hsigned⟩
          refine ⟨_, hn, by simp [Marked.kind], ?_⟩
          rw [Marked.form, Inference.numberShape, if_pos hsigned, Shape.form]
      | double =>
          rcases h with ⟨n, hn, hwide⟩
          refine ⟨_, hn, by simp [Marked.kind], ?_⟩
          rw [Marked.form, Inference.numberShape, if_neg (by simp [hwide]), Shape.form]
      | string => exact h.elim fun x hx => ⟨_, hx, by simp [Marked.kind], rfl⟩
      | null => exact absurd rfl hnull
      | dynamic => exact absurd rfl hdyn
  | list item nullable => exact h.1.elim fun items hitems => ⟨_, hitems, by simp [Marked.kind], rfl⟩
  | ref id =>
      rcases h with ⟨k, members, hmem, _⟩
      exact ⟨_, hmem, by simp [Marked.kind], rfl⟩

/-- Values make no more of a shape than matching values fit. -/
theorem form_below (h : s.shape.Tight z vs) (hvs : ∀ v ∈ vs, ∃ w ∈ ws, Marked.Matches E v w)
    (hfits : ∀ w ∈ ws, Fits z' w s') : s.shape.form.Below s'.shape.form := by
  by_cases hnull : s.shape = .null
  · rw [hnull]
    exact .null _
  by_cases hdyn : s.shape = .dynamic
  · -- Values of two kinds fit no slot of one kind.
    rw [hdyn] at h
    rcases h with ⟨v₁, hv₁, v₂, hv₂, hn₁, hn₂, hne⟩
    rcases hvs v₁ hv₁ with ⟨w₁, hw₁, h₁⟩
    rcases hvs v₂ hv₂ with ⟨w₂, hw₂, h₂⟩
    rw [h₁.kind_eq] at hn₁ hne
    rw [h₂.kind_eq] at hn₂ hne
    rcases (hfits w₁ hw₁).kind_eq hn₁ with hs | hk₁
    · exact hs ▸ .dynamic _
    · rcases (hfits w₂ hw₂).kind_eq hn₂ with hs | hk₂
      · exact hs ▸ .dynamic _
      · exact absurd (Option.some.inj (hk₁.symm.trans hk₂)) hne
  · rcases exists_form_of_tight h hnull hdyn with ⟨v, hv, hkind, hform⟩
    rcases hvs v hv with ⟨w, hw, hmatch⟩
    rw [hform, hmatch.form_eq]
    exact form_below_of_fits (hfits w hw) (hmatch.kind_eq ▸ hkind)

/-! ### Slots and their values -/

/-- A slot that values have made, and that they fit. The objects among them are
    known. -/
structure Settled (z : ClassTable) (S : Set Node) (vs : Set Marked) (s : Slot) : Prop where
  tight : s.shape.Tight z vs
  fits : ∀ v ∈ vs, Fits z v s
  nodes : ∀ v ∈ vs, ∀ n ∈ v.nodes, n ∈ S

/-- There is a null on either side or on none. -/
theorem null_mem_of_paired (h : Paired (Marked.Matches E) vs ws) :
    .null ∈ vs ↔ .null ∈ ws := by
  constructor
  · intro hnull
    rcases h.left _ hnull with ⟨w, hw, hmatch⟩
    cases hmatch
    exact hw
  · intro hnull
    rcases h.right _ hnull with ⟨v, hv, hmatch⟩
    cases hmatch
    exact hv

/-- Slots of matching values have the same form. Each is tight in its own values, which
    the other one fits, so neither is wider. -/
theorem form_eq (h : z.Settled S vs s) (h' : z'.Settled S' ws s')
    (hvs : Paired (Marked.Matches E) vs ws) : s.shape.form = s'.shape.form := by
  have hright : ∀ w ∈ ws, ∃ v ∈ vs, Marked.Matches (fun i j => E j i) w v := fun w hw =>
    (hvs.right w hw).imp fun _ hv => ⟨hv.1, hv.2.symm⟩
  exact (form_below h.tight hvs.left h'.fits).antisymm (form_below h'.tight hright h.fits)

/-- The elements of arrays make the slot of the elements. -/
theorem Settled.elements (h : z.Settled S vs s) {item : Shape} {nullable : Bool}
    (hs : s.shape = .list item nullable) :
    z.Settled S (elements vs) ⟨item, nullable⟩ ∧
      (nullable = true ↔ .null ∈ DartModels.elements vs) := by
  have htight := h.tight
  rw [hs] at htight
  have hfits := Fits.elements h.fits hs
  refine ⟨⟨htight.2.2, hfits, ?_⟩, htight.2.1, fun hnull => ?_⟩
  · rintro v ⟨items, hitems, hv⟩ n hn
    exact h.nodes _ hitems n (Marked.nodes.eq_def _ ▸ Marked.mem_nodesOfItems.mpr ⟨v, hv, hn⟩)
  · cases hfits _ hnull with
    | null hs => exact hs
    | dynamic hkind => exact absurd rfl hkind

/-! ### Classes and their objects -/

/-- A table whose classes are made by the objects of a document and describe all of
    them. -/
structure Account (z : ClassTable) (S : Set Node) : Prop where
  keyed : z.Keyed
  grounded : z.AllGrounded S
  describes : ∀ n ∈ S, z.Describes n
  closed : ∀ n ∈ S, ∀ m ∈ n.members, ∀ p ∈ m.2.nodes, p ∈ S

/-- A class that is made by the objects of its number and describes them. -/
structure Represents (z : ClassTable) (S : Set Node) (id : ClassId) (c : ClassDef) : Prop where
  find : z.find? id = some c
  keys : (c.fields.map Field.key).Nodup
  grounded : z.Grounded S id c.fields
  fits : ∀ n ∈ z.nodesOf S id, ∀ m ∈ n.members, ∃ f ∈ c.fields, f.key = m.1 ∧ Fits z m.2 f.slot
  lacks : ∀ n ∈ z.nodesOf S id, ∀ f ∈ c.fields, n.Lacks f.key → f.slot.nullable = true

/-- Objects have a class, which is made by all of them and describes all of them. -/
theorem Account.exists_class (h : z.Account S) {n : Node} (hn : n ∈ z.nodesOf S id) :
    ∃ c, z.Represents S id c := by
  have hdescribes : ∀ p ∈ z.nodesOf S id, ∃ c, z.find? id = some c ∧
      (∀ m ∈ p.members, ∃ f ∈ c.fields, f.key = m.1 ∧ Fits z m.2 f.slot) ∧
        ∀ f ∈ c.fields, p.Lacks f.key → f.slot.nullable = true := by
    intro p hp
    rcases h.describes p hp.1 with ⟨c, hc, hrest⟩
    -- What resolves to the same class is found as the same class.
    rw [find?_eq_at?, hp.2, ← find?_eq_at?] at hc
    exact ⟨c, hc, hrest⟩
  rcases hdescribes n hn with ⟨c, hc, _⟩
  have hat : z.at? (z.resolve id) = some c := hc
  refine ⟨c, hc, h.keyed _ c hat,
    (h.grounded _ c hat).congr_resolve (resolve_of_at? hat).symm, fun p hp => ?_, fun p hp => ?_⟩
  all_goals
    -- Every object of the class is described by a class, and this is the one.
    rcases hdescribes p hp with ⟨d, hd, hmembers, hlacks⟩
    rw [hc, Option.some.injEq] at hd
    subst hd
  · exact hmembers
  · exact hlacks

/-- Keys are distinct, so looking one up finds its field. -/
theorem Represents.field?_eq_some_iff (h : z.Represents S id c) :
    c.field? k = some f ↔ f ∈ c.fields ∧ f.key = k :=
  Field.find?_eq_some_iff h.keys

/-- The values of a key fit the field with that key. -/
theorem Represents.settled (h : z.Represents S id c) (ha : z.Account S)
    (hf : c.field? k = some f) : z.Settled S (z.valuesAt S id k) f.slot := by
  rcases h.field?_eq_some_iff.mp hf with ⟨hmem, rfl⟩
  refine ⟨(h.grounded.field f hmem).tight, ?_, ?_⟩
  · rintro v ⟨n, hn, hv⟩
    rcases h.fits n hn _ hv with ⟨g, hg, hkey, hfits⟩
    rwa [Field.eq_of_key_eq h.keys hg hmem hkey] at hfits
  · rintro v ⟨n, hn, hv⟩ p hp
    exact ha.closed n hn.1 _ hv p hp

/-- There is a field for exactly the keys that the objects show. -/
theorem Represents.field?_isSome_iff (h : z.Represents S id c) :
    (∃ f, c.field? k = some f) ↔ ∃ n ∈ z.nodesOf S id, ∃ v, (k, v) ∈ n.members := by
  constructor
  · rintro ⟨f, hf⟩
    rcases h.field?_eq_some_iff.mp hf with ⟨hmem, rfl⟩
    exact (h.grounded.field f hmem).occurs
  · rintro ⟨n, hn, v, hv⟩
    rcases h.fits n hn _ hv with ⟨f, hf, hkey, _⟩
    exact ⟨f, h.field?_eq_some_iff.mpr ⟨hf, hkey⟩⟩

/-- A field may be null exactly if an object lacks its key or has a null there. -/
theorem Represents.nullable_iff (h : z.Represents S id c) (hf : c.field? k = some f) :
    f.slot.nullable = true ↔ ∃ n ∈ z.nodesOf S id, n.Lacks k ∨ (k, .null) ∈ n.members := by
  rcases h.field?_eq_some_iff.mp hf with ⟨hmem, rfl⟩
  refine ⟨(h.grounded.field f hmem).nullable, ?_⟩
  rintro ⟨n, hn, hlacks | hnull⟩
  · exact h.lacks n hn f hmem hlacks
  · rcases h.fits n hn _ hnull with ⟨g, hg, hkey, hfits⟩
    rw [Field.eq_of_key_eq h.keys hg hmem hkey] at hfits
    cases hfits with
    | null hs => exact hs
    | dynamic hkind => exact absurd rfl hkind

/-! ### Two tables -/

/-- Two tables that describe matching objects, and put the same of them together. -/
structure Aligned (E : ClassId → ClassId → Prop) (z : ClassTable) (S : Set Node) (z' : ClassTable)
    (S' : Set Node) : Prop where
  left : z.Account S
  right : z'.Account S'
  nodes : Paired (Node.Matches E) S S'
  resolve_iff : ∀ i i' j j', E i i' → E j j' →
    (z.resolve i = z.resolve j ↔ z'.resolve i' = z'.resolve j')

/-- Slots of two tables that matching values have made. -/
def Agree (E : ClassId → ClassId → Prop) (z : ClassTable) (S : Set Node) (z' : ClassTable)
    (S' : Set Node) (s s' : Slot) : Prop :=
  ∃ vs ws, z.Settled S vs s ∧ z'.Settled S' ws s' ∧ Paired (Marked.Matches E) vs ws ∧
    s.nullable = s'.nullable

/-- The objects of classes match if one of them does. -/
theorem Aligned.nodesOf (h : Aligned E z S z' S') {i i' : ClassId} (hE : E i i')
    (hi : z.resolve i = z.resolve id) (hi' : z'.resolve i' = z'.resolve id') :
    Paired (Node.Matches E) (z.nodesOf S id) (z'.nodesOf S' id') where
  left n hn := by
    rcases h.nodes.left n hn.1 with ⟨n', hn', hmatch⟩
    refine ⟨n', ⟨hn', ?_⟩, hmatch⟩
    rw [← hi']
    -- The first table has both in one class, so the second one has, too.
    exact (h.resolve_iff _ _ _ _ hmatch.id hE).mp (hn.2.trans hi.symm)
  right n' hn' := by
    rcases h.nodes.right n' hn'.1 with ⟨n, hn, hmatch⟩
    refine ⟨n, ⟨hn, ?_⟩, hmatch⟩
    rw [← hi]
    exact (h.resolve_iff _ _ _ _ hmatch.id hE).mpr (hn'.2.trans hi'.symm)

section Objects

variable (hn : Paired (Node.Matches E) (z.nodesOf S id) (z'.nodesOf S' id'))
include hn

/-- Under each key, matching objects have matching values. -/
theorem paired_valuesAt (k : String) :
    Paired (Marked.Matches E) (z.valuesAt S id k) (z'.valuesAt S' id' k) where
  left := by
    rintro v ⟨n, hmem, hv⟩
    rcases hn.left n hmem with ⟨n', hmem', hmatch⟩
    rcases hmatch.members.left _ hv with ⟨⟨key, w⟩, hw, rfl, hvw⟩
    exact ⟨w, ⟨n', hmem', hw⟩, hvw⟩
  right := by
    rintro w ⟨n', hmem', hw⟩
    rcases hn.right n' hmem' with ⟨n, hmem, hmatch⟩
    rcases hmatch.members.right _ hw with ⟨⟨key, v⟩, hv, rfl, hvw⟩
    exact ⟨v, ⟨n, hmem, hv⟩, hvw⟩

/-- If an object lacks a key or has a null there, a matching one does. -/
theorem exists_lacks (h : ∃ n ∈ z.nodesOf S id, n.Lacks k ∨ (k, .null) ∈ n.members) :
    ∃ n ∈ z'.nodesOf S' id', n.Lacks k ∨ (k, .null) ∈ n.members := by
  rcases h with ⟨n, hmem, hlacks⟩
  rcases hn.left n hmem with ⟨n', hmem', hmatch⟩
  refine ⟨n', hmem', hlacks.imp (fun hlacks m' hm' => ?_) fun hnull => ?_⟩
  · rcases hmatch.members.right m' hm' with ⟨m, hm, hkey, _⟩
    exact hkey ▸ hlacks m hm
  · rcases hmatch.members.left _ hnull with ⟨⟨key, w⟩, hw, rfl, hvw⟩
    cases hvw
    exact hw

end Objects

/-- The nodes of the second table match those of the first. -/
theorem symm_nodes {ns ns' : Set Node} (h : Paired (Node.Matches E) ns ns') :
    Paired (Node.Matches fun i j => E j i) ns' ns :=
  h.symm.mono fun _ _ hn => hn.symm

/-- A key that the one class has a field for, the other has a field for as well, and
    the slots agree. -/
theorem Aligned.agree_field (h : Aligned E z S z' S')
    (hn : Paired (Node.Matches E) (z.nodesOf S id) (z'.nodesOf S' id'))
    (hc : z.Represents S id c) (hc' : z'.Represents S' id' c') (hf : c.field? k = some f)
    (hf' : c'.field? k = some f') : Agree E z S z' S' f.slot f'.slot := by
  refine ⟨_, _, hc.settled h.left hf, hc'.settled h.right hf', paired_valuesAt hn k, ?_⟩
  rw [Bool.eq_iff_iff, hc.nullable_iff hf, hc'.nullable_iff hf']
  exact ⟨exists_lacks hn, exists_lacks (symm_nodes hn)⟩

/-- What matching objects show of a key, they show in both classes. -/
theorem exists_member (hn : Paired (Node.Matches E) (z.nodesOf S id) (z'.nodesOf S' id'))
    (h : ∃ n ∈ z.nodesOf S id, ∃ v, (k, v) ∈ n.members) :
    ∃ n ∈ z'.nodesOf S' id', ∃ v, (k, v) ∈ n.members := by
  rcases h with ⟨n, hmem, v, hv⟩
  rcases (paired_valuesAt hn k).left v ⟨n, hmem, hv⟩ with ⟨w, ⟨n', hmem', hw⟩, _⟩
  exact ⟨n', hmem', w, hw⟩

/-- The elements of slots that agree have slots that agree. -/
theorem Agree.elements (hs : Agree E z S z' S' s s') {item item' : Shape}
    {nullable nullable' : Bool} (hx : s.shape = .list item nullable)
    (hx' : s'.shape = .list item' nullable') :
    Agree E z S z' S' ⟨item, nullable⟩ ⟨item', nullable'⟩ := by
  rcases hs with ⟨vs, ws, hs, hs', hvs, _⟩
  rcases hs.elements hx with ⟨helements, hnull⟩
  rcases hs'.elements hx' with ⟨helements', hnull'⟩
  have hpaired := Marked.paired_elements hvs
  refine ⟨_, _, helements, helements', hpaired, ?_⟩
  rw [Bool.eq_iff_iff]
  exact hnull.trans ((null_mem_of_paired hpaired).trans hnull'.symm)

/-- The classes of slots that agree are those of matching objects. -/
theorem Agree.nodesOf (h : Aligned E z S z' S') (hs : Agree E z S z' S' s s')
    (hx : s.shape = .ref id) (hx' : s'.shape = .ref id') :
    (∃ n, n ∈ z.nodesOf S id) ∧
      Paired (Node.Matches E) (z.nodesOf S id) (z'.nodesOf S' id') := by
  rcases hs with ⟨vs, ws, hs, hs', hvs, _⟩
  have htight := hs.tight
  rw [hx] at htight
  -- A slot that refers to a class was made by an object of the class. Its partner belongs
  -- to the other class, since it fits the other slot.
  rcases htight with ⟨i, members, hmem, hi⟩
  rcases hvs.left _ hmem with ⟨w, hw, hmatch⟩
  rcases Marked.matches_object_iff.mp hmatch with ⟨i', members', rfl, hnode⟩
  have hnodes : ⟨i, members⟩ ∈ S :=
    hs.nodes _ hmem _ (by rw [Marked.nodes]; exact List.mem_cons_self)
  refine ⟨⟨⟨i, members⟩, hnodes, hi⟩, h.nodesOf hnode.id hi ?_⟩
  cases hs'.fits _ hw with
  | dynamic _ hdyn => cases hx'.symm.trans hdyn
  | object href hi' =>
      cases hx'.symm.trans href
      exact hi'.symm

/-- Types that agree at the start agree on all paths. -/
theorem Aligned.slotAt_eq (h : Aligned E z S z' S') (path : List TypeStep)
    (hs : Agree E z S z' S' s s') :
    (z.slotAt s path).map (fun s => (s.shape.form, s.nullable)) =
      (z'.slotAt s' path).map fun s => (s.shape.form, s.nullable) := by
  have hform : ∀ {s s'}, Agree E z S z' S' s s' → s.shape.form = s'.shape.form :=
    fun ⟨_, _, hs, hs', hvs, _⟩ => form_eq hs hs' hvs
  -- By induction on the path. Either both slots have such a step, and what it leads to
  -- agrees again, or neither has.
  induction path generalizing s s' with
  | nil =>
      have hnull : s.nullable = s'.nullable := hs.choose_spec.choose_spec.2.2.2
      simp only [slotAt, Option.map_some, hform hs, hnull]
  | cons step path ih =>
      cases step with
      | element =>
          by_cases hlist : s.shape.form = .list
          · rcases Shape.form_eq_list_iff.mp hlist with ⟨item, nullable, hx⟩
            rcases Shape.form_eq_list_iff.mp (hform hs ▸ hlist) with ⟨item', nullable', hx'⟩
            rw [slotAt_element hx, slotAt_element hx']
            exact ih (hs.elements hx hx')
          · rw [slotAt_element_of_ne hlist, slotAt_element_of_ne (hform hs ▸ hlist)]
      | key k =>
          by_cases hobject : s.shape.form = .object
          · rcases Shape.form_eq_object_iff.mp hobject with ⟨id, hx⟩
            rcases Shape.form_eq_object_iff.mp (hform hs ▸ hobject) with ⟨id', hx'⟩
            rcases hs.nodesOf h hx hx' with ⟨⟨n, hn⟩, hnodes⟩
            rcases hnodes.left n hn with ⟨n', hn', _⟩
            rcases h.left.exists_class hn with ⟨c, hc⟩
            rcases h.right.exists_class hn' with ⟨c', hc'⟩
            rw [slotAt_key hx hc.find, slotAt_key hx' hc'.find]
            -- Either class has a field for a key that its objects show.
            have hsome : (∃ f, c.field? k = some f) ↔ ∃ f, c'.field? k = some f := by
              rw [hc.field?_isSome_iff, hc'.field?_isSome_iff]
              exact ⟨exists_member hnodes, exists_member (symm_nodes hnodes)⟩
            cases hf : c.field? k with
            | some f =>
                rcases hsome.mp ⟨f, hf⟩ with ⟨f', hf'⟩
                rw [hf', Option.bind_some, Option.bind_some]
                exact ih (h.agree_field hnodes hc hc' hf hf')
            | none =>
                cases hf' : c'.field? k with
                | some f' => exact absurd (hsome.mpr ⟨f', hf'⟩) (by rw [hf]; nofun)
                | none => rw [Option.bind_none, Option.bind_none]
          · rw [slotAt_key_of_ne hobject, slotAt_key_of_ne (hform hs ▸ hobject)]

end ClassTable

/-! ### Rearranged documents -/

/-- The objects in the members of an object of a document are objects of the document. -/
theorem Marked.closed_nodes (m : Marked) :
    ∀ n ∈ m.nodes, ∀ x ∈ n.members, ∀ p ∈ x.2.nodes, p ∈ m.nodes := by
  induction m using Marked.induction with
  | null | bool _ | number _ | string _ =>
      intro n hn
      rw [nodes.eq_def] at hn
      exact absurd hn List.not_mem_nil
  | array items ih =>
      intro n hn x hx p hp
      rw [nodes] at hn ⊢
      rcases mem_nodesOfItems.mp hn with ⟨v, hv, hn⟩
      exact mem_nodesOfItems.mpr ⟨v, hv, ih v hv n hn x hx p hp⟩
  | object id members ih =>
      intro n hn x hx p hp
      rw [nodes] at hn ⊢
      refine List.mem_cons_of_mem _ (mem_nodesOfMembers.mpr ?_)
      -- The object is this one or one further inside.
      rcases List.mem_cons.mp hn with rfl | hn
      · exact ⟨x, hx, hp⟩
      · rcases mem_nodesOfMembers.mp hn with ⟨m, hm, hn⟩
        exact ⟨m, hm, ih m hm n hn x hx p hp⟩

/-- The catalog of a document accounts for its objects, provided that it describes them. -/
theorem Catalog.account {o : Options} (ho : o.mergeArrays = true) {name : String} {v : Json}
    (hv : v.Distinct) {catalog : Catalog} (h : ofDocument o name v = .ok catalog)
    (hd : ∀ n ∈ (Inference.markRoot o .empty name v).nodes, catalog.table.Describes n) :
    catalog.table.Account {n | n ∈ (Inference.markRoot o .empty name v).nodes} where
  keyed := (sound ho hv h).1
  grounded := (allGrounded ho h).2.1
  describes := hd
  closed := Marked.closed_nodes _

/-- The document makes the slot of the root. -/
theorem Catalog.settled_root {o : Options} {name : String} {v : Json} {catalog : Catalog}
    (h : ofDocument o name v = .ok catalog) :
    catalog.table.Settled {n | n ∈ (Inference.markRoot o .empty name v).nodes}
      {Inference.markRoot o .empty name v} (.required (.ref catalog.root)) := by
  rcases ofDocument_eq_ok h with ⟨root, t, hr, _, hfold, rfl⟩
  rcases Inference.observeRoot_eq_ok hr with ⟨members, fields, t₁, rfl, _⟩
  rw [Inference.markRoot_of_ok hr]
  have hroot : t.foldDuplicates.resolve (t.foldDuplicates.resolve root) =
      t.foldDuplicates.resolve root := hfold.wellFormed.linked.resolve_idem root
  refine ⟨⟨_, _, rfl, hroot.symm⟩, ?_, ?_⟩
  · rintro v rfl
    exact .object rfl hroot
  · rintro v rfl n hn
    exact hn

/-- When the elements of an array are rearranged, the marks of the document can be
    carried along. If both runs describe all objects and, with these marks, put the
    same of them together, then the two documents have the same types on all
    paths. -/
theorem Catalog.typeAt_eq_of_rearranged {o : Options} (ho : o.mergeArrays = true) {name : String}
    {v v' : Json} (hv : v.Distinct) (hr : v.Rearranged v') {catalog catalog' : Catalog}
    (h : ofDocument o name v = .ok catalog) (h' : ofDocument o name v' = .ok catalog')
    (hd : ∀ n ∈ (Inference.markRoot o .empty name v).nodes, catalog.table.Describes n)
    (hd' : ∀ n ∈ (Inference.markRoot o .empty name v').nodes, catalog'.table.Describes n) :
    (∃ m, (Inference.markRoot o .empty name v).Rearranged m ∧ m.erase = v') ∧
      ∀ m, (Inference.markRoot o .empty name v).Rearranged m → m.erase = v' →
        SameGroups catalog.table m catalog'.table (Inference.markRoot o .empty name v') →
          ∀ path, catalog.typeAt path = catalog'.typeAt path := by
  refine ⟨Marked.rearranged_erase_iff.mp ((Inference.erase_markRoot o .empty name v).symm ▸ hr),
    fun m hm herase hg path => ?_⟩
  -- An object is paired with the one that is in its place when the elements are rearranged.
  have hmatch : Marked.Matches (m.Twins (Inference.markRoot o .empty name v'))
      (Inference.markRoot o .empty name v) (Inference.markRoot o .empty name v') :=
    hm.matches_of_matches (Marked.matches_of_erase_eq _ _
      (herase.trans (Inference.erase_markRoot o .empty name v').symm)
      fun p hp => ⟨p, hp, rfl, rfl⟩)
  have haligned : Aligned (m.Twins (Inference.markRoot o .empty name v')) catalog.table
      {n | n ∈ (Inference.markRoot o .empty name v).nodes} catalog'.table
      {n | n ∈ (Inference.markRoot o .empty name v').nodes} :=
    { left := account ho hv h hd
      right := account ho (hr.distinct hv) h' hd'
      nodes := hmatch.nodes
      -- Pairs are marks of one place, so the assumption on groups says it.
      resolve_iff := by
        rintro _ _ _ _ ⟨p, hp, rfl, rfl⟩ ⟨q, hq, rfl, rfl⟩
        exact hg p hp q hq }
  refine haligned.slotAt_eq path ⟨_, _, settled_root h, settled_root h', ⟨?_, ?_⟩, rfl⟩
  · rintro v rfl
    exact ⟨_, rfl, hmatch⟩
  · rintro w rfl
    exact ⟨_, rfl, hmatch⟩

/-- A document with two elements in an array. -/
def Catalog.pairDocument (v w : Json) : Json :=
  .object [("xs", .array [v, w])]

/-- The same elements in the other order, marks included. -/
def Marked.exchanged : Marked → Marked
  | .object id [(key, .array [v, w])] => .object id [(key, .array [w, v])]
  | m => m

/-- The marks of a document with two elements can be exchanged along with them. -/
theorem Catalog.exchanged_markRoot {name : String} {v w : Json} {catalog : Catalog}
    (h : ofDocument {} name (pairDocument v w) = .ok catalog) :
    (Inference.markRoot {} .empty name (pairDocument v w)).Rearranged
        (Inference.markRoot {} .empty name (pairDocument v w)).exchanged ∧
      (Inference.markRoot {} .empty name (pairDocument v w)).exchanged.erase =
        pairDocument w v := by
  rcases ofDocument_eq_ok h with ⟨root, t, hr, _⟩
  have herase := Inference.erase_markRoot {} .empty name (pairDocument v w)
  have hmark : ∃ x y, Inference.markRoot {} .empty name (pairDocument v w) =
      .object root [("xs", .array [x, y])] := by
    rw [pairDocument] at hr ⊢
    rw [Inference.markRoot_of_ok hr]
    exact ⟨_, _, rfl⟩
  -- What is marked is an array of two, and the marks come off each.
  rcases hmark with ⟨x, y, hmark⟩
  rw [hmark] at herase ⊢
  simp only [pairDocument, Marked.erase, Marked.eraseMembers, Marked.eraseItems,
    Json.object.injEq, List.cons.injEq, Prod.mk.injEq, Json.array.injEq, and_true,
    true_and] at herase
  rcases herase with ⟨rfl, rfl⟩
  exact ⟨@Marked.Rearranged.member root [] [] "xs" _ _ (.array (.swap _ _ [])), rfl⟩

/-- An object with a key that the other one lacks. -/
def Catalog.fullElement : Json :=
  .object [("a", .array [.null]), ("b", .bool true)]

/-- The other one, whose list holds a string where the first has a null. -/
def Catalog.sparseElement : Json :=
  .object [("a", .array [.string "s"])]

/-- In either order the two elements become one class, and the types are the same. -/
theorem Catalog.typeAt_eq_of_rearranged_pair : ∃ catalog catalog',
    ofDocument {} "Root" (pairDocument fullElement sparseElement) = .ok catalog ∧
      ofDocument {} "Root" (pairDocument sparseElement fullElement) = .ok catalog' ∧
      ∀ path, catalog.typeAt path = catalog'.typeAt path := by
  -- Both runs are computed, and what is assumed of their tables is decided.
  have hrun : ((ofDocument {} "Root" (pairDocument fullElement sparseElement)).bind fun c =>
      (ofDocument {} "Root" (pairDocument sparseElement fullElement)).map fun c' => decide (
        (∀ n ∈ (Inference.markRoot {} .empty "Root"
          (pairDocument fullElement sparseElement)).nodes, c.table.Describes n) ∧
        (∀ n ∈ (Inference.markRoot {} .empty "Root"
          (pairDocument sparseElement fullElement)).nodes, c'.table.Describes n) ∧
        SameGroups c.table
          (Inference.markRoot {} .empty "Root" (pairDocument fullElement sparseElement)).exchanged
          c'.table
          (Inference.markRoot {} .empty "Root" (pairDocument sparseElement fullElement)))) =
      .ok true := by decide +kernel
  rcases hc : ofDocument {} "Root" (pairDocument fullElement sparseElement) with e | catalog
  · rw [hc] at hrun
    cases hrun
  rcases hc' : ofDocument {} "Root" (pairDocument sparseElement fullElement) with e | catalog'
  · rw [hc, hc'] at hrun
    cases hrun
  rw [hc, hc'] at hrun
  rcases of_decide_eq_true (Except.ok.inj hrun) with ⟨hd, hd', hg⟩
  rcases exchanged_markRoot hc with ⟨hm, herase⟩
  -- The elements themselves are only exchanged.
  have hdistinct : (pairDocument fullElement sparseElement).Distinct := by
    simp [pairDocument, fullElement, sparseElement, Json.Distinct, Json.DistinctItems,
      Json.DistinctMembers]
  have hr : (pairDocument fullElement sparseElement).Rearranged
      (pairDocument sparseElement fullElement) :=
    @Json.Rearranged.member [] [] "xs" _ _ (.array (.swap _ _ []))
  exact ⟨catalog, catalog', rfl, rfl,
    (typeAt_eq_of_rearranged rfl hdistinct hr hc hc' hd hd').2 _ hm herase hg⟩

/-- The document whose class loses a field, with two elements in another order. -/
def Catalog.reorderedLossyDocument : Json :=
  .object [("xs", .array [
    .object [("a", .object [("v", .number (.integer 1))])],
    .object [("a", .object [("w", .number (.integer 1))])],
    .object [("v", .number (.integer 1))]])]

/-- The last two elements of the array are exchanged. -/
theorem Catalog.rearranged_lossyDocument :
    lossyDocument.Rearranged reorderedLossyDocument :=
  @Json.Rearranged.member [] [] "xs" _ _ (.array (.cons _ (.swap _ _ [])))

/-- The order of the elements of an array can make a difference: there is a key in
    one order and not in the other. -/
theorem Catalog.not_forall_typeAt_eq : ¬ ∀ (o : Options) (name : String) (v v' : Json)
    (catalog catalog' : Catalog), o.mergeArrays = true → v.Distinct → v.Rearranged v' →
      ofDocument o name v = .ok catalog → ofDocument o name v' = .ok catalog' →
        ∀ path, catalog.typeAt path = catalog'.typeAt path := by
  intro hall
  -- The two runs are computed. Only the second one has the key.
  have hnone : (ofDocument {} "Root" lossyDocument).map
      (·.typeAt [.key "xs", .element, .key "w"]) = .ok none := by decide +kernel
  have hsome : (ofDocument {} "Root" reorderedLossyDocument).map
      (·.typeAt [.key "xs", .element, .key "w"]) = .ok (some (.primitive .int, true)) := by
    decide +kernel
  rcases hc : ofDocument {} "Root" lossyDocument with e | catalog
  · rw [hc] at hnone
    cases hnone
  rcases hc' : ofDocument {} "Root" reorderedLossyDocument with e | catalog'
  · rw [hc'] at hsome
    cases hsome
  rw [hc] at hnone
  rw [hc'] at hsome
  have heq := hall {} "Root" lossyDocument reorderedLossyDocument catalog catalog' rfl
    distinct_lossyDocument rearranged_lossyDocument hc hc' [.key "xs", .element, .key "w"]
  cases (Except.ok.inj hnone).symm.trans (heq.trans (Except.ok.inj hsome))

end DartModels
