import DartModels.Proofs.Distinct
import DartModels.Proofs.NameSupply
import DartModels.Proofs.Tightness
import Mathlib.Data.List.Perm.Basic

/-!
# Matching documents

Documents that differ in the order of the elements of an array.

Inference goes through such documents in different orders, and the numbers of
classes it hands out have nothing to do with each other. What can be compared are
the objects. An object of the one document is carried along when the elements are
rearranged, and is then found in a place of the other document, where it has
another mark. The pairs of marks say which object became which.

Given such pairs, two marked documents match if they hold the same, with paired
marks and up to the order in which arrays have their elements. How often an
element occurs does not matter either. That makes matching weaker than
rearranging, and easier to use: it is a statement about sets of values.

## Main definitions

* `Json.Rearranged`, `Marked.Rearranged`: The elements of one array in another order.
* `Paired`: Each side of a relation has a counterpart on the other.
* `Marked.Matches`: Two documents hold the same, with paired marks.

## Theorems

* `Marked.rearranged_erase_iff`: Marks can be carried along.
* `Marked.Rearranged.matches_of_matches`: A document matches what its rearrangement
  matches.
* `Marked.matches_of_erase_eq`: Two markings of one document match.
* `Marked.Matches.nodes`: So do the objects of matching documents.
-/

namespace DartModels

open Marked (Node)

/-! ### Pairs -/

section Pairs

variable {α β : Type} {R R' : α → β → Prop} {as : Set α} {bs : Set β}

/-- Everything in one of two sets is related to something in the other. -/
structure Paired (R : α → β → Prop) (as : Set α) (bs : Set β) : Prop where
  left : ∀ a ∈ as, ∃ b ∈ bs, R a b
  right : ∀ b ∈ bs, ∃ a ∈ as, R a b

/-- A weaker relation pairs the same sets. -/
theorem Paired.mono (h : Paired R as bs) (hR : ∀ a b, R a b → R' a b) : Paired R' as bs where
  left a ha := (h.left a ha).imp fun b hb => ⟨hb.1, hR a b hb.2⟩
  right b hb := (h.right b hb).imp fun a ha => ⟨ha.1, hR a b ha.2⟩

/-- Pairs can be read from either side. -/
theorem Paired.symm (h : Paired R as bs) : Paired (fun b a => R a b) bs as where
  left := h.right
  right := h.left

/-- One element of a list may be replaced by one that has the same partners. -/
theorem Paired.replace {a a' : α} {before after : List α}
    (h : Paired R {x | x ∈ before ++ a' :: after} bs) (ha : ∀ b, R a' b → R a b) :
    Paired R {x | x ∈ before ++ a :: after} bs where
  left x hx := by
    rcases List.mem_append.mp hx with hx | hx
    · exact h.left x (List.mem_append_left _ hx)
    · rcases List.mem_cons.mp hx with rfl | hx
      · rcases h.left a' (List.mem_append_right before List.mem_cons_self) with ⟨b, hb, hR⟩
        exact ⟨b, hb, ha b hR⟩
      · exact h.left x (List.mem_append_right before (List.mem_cons_of_mem a' hx))
  right b hb := by
    rcases h.right b hb with ⟨x, hx, hR⟩
    rcases List.mem_append.mp hx with hx | hx
    · exact ⟨x, List.mem_append_left _ hx, hR⟩
    · rcases List.mem_cons.mp hx with rfl | hx
      · exact ⟨a, List.mem_append_right before List.mem_cons_self, ha b hR⟩
      · exact ⟨x, List.mem_append_right before (List.mem_cons_of_mem a hx), hR⟩

/-- Lists that are related position by position are paired as sets. -/
theorem paired_of_forall₂ {xs : List α} {ys : List β} (h : List.Forall₂ R xs ys) :
    Paired R {x | x ∈ xs} {y | y ∈ ys} := by
  induction h with
  | nil => exact ⟨fun _ hx => absurd hx List.not_mem_nil, fun _ hy => absurd hy List.not_mem_nil⟩
  | @cons x y xs ys hxy _ ih =>
      refine ⟨fun a ha => ?_, fun b hb => ?_⟩
      · rcases List.mem_cons.mp ha with rfl | ha
        · exact ⟨y, List.mem_cons_self, hxy⟩
        · exact (ih.left a ha).imp fun b hb => ⟨List.mem_cons_of_mem y hb.1, hb.2⟩
      · rcases List.mem_cons.mp hb with rfl | hb
        · exact ⟨x, List.mem_cons_self, hxy⟩
        · exact (ih.right b hb).imp fun a ha => ⟨List.mem_cons_of_mem x ha.1, ha.2⟩

end Pairs

/-! ### Rearranged documents -/

/-- The second document is the first one with the elements of one array in another
    order. -/
inductive Json.Rearranged : Json → Json → Prop where
  | array {items items' : List Json} (h : items.Perm items') :
      Rearranged (.array items) (.array items')
  | item {before after : List Json} {v w : Json} (h : Rearranged v w) :
      Rearranged (.array (before ++ v :: after)) (.array (before ++ w :: after))
  | member {before after : List (String × Json)} {key : String} {v w : Json}
      (h : Rearranged v w) :
      Rearranged (.object (before ++ (key, v) :: after)) (.object (before ++ (key, w) :: after))

/-- Keys stay what and where they are. -/
theorem Json.Rearranged.distinct {v w : Json} (h : v.Rearranged w) (hv : v.Distinct) :
    w.Distinct := by
  induction h with
  | array h =>
      rw [Distinct, distinctItems_iff] at hv ⊢
      exact fun v hmem => hv v (h.mem_iff.mpr hmem)
  | @item before after v w _ ih =>
      rw [Distinct, distinctItems_iff] at hv ⊢
      intro x hx
      rcases List.mem_append.mp hx with hx | hx
      · exact hv x (List.mem_append_left _ hx)
      · -- The element that was changed, or one that was not.
        rcases List.mem_cons.mp hx with rfl | hx
        · exact ih (hv v (List.mem_append_right before List.mem_cons_self))
        · exact hv x (List.mem_append_right before (List.mem_cons_of_mem v hx))
  | @member before after key v w _ ih =>
      rw [Distinct, distinctMembers_iff] at hv ⊢
      refine ⟨by simpa using hv.1, fun m hm => ?_⟩
      rcases List.mem_append.mp hm with hm | hm
      · exact hv.2 m (List.mem_append_left _ hm)
      · rcases List.mem_cons.mp hm with rfl | hm
        · exact ih (hv.2 (key, v) (List.mem_append_right before List.mem_cons_self))
        · exact hv.2 m (List.mem_append_right before (List.mem_cons_of_mem _ hm))

namespace Marked

variable {E : ClassId → ClassId → Prop} {v w m m' m₀ : Marked}

/-- The same for a marked document, whose objects take their marks along. -/
inductive Rearranged : Marked → Marked → Prop where
  | array {items items' : List Marked} (h : items.Perm items') :
      Rearranged (.array items) (.array items')
  | item {before after : List Marked} {v w : Marked} (h : Rearranged v w) :
      Rearranged (.array (before ++ v :: after)) (.array (before ++ w :: after))
  | member {id : ClassId} {before after : List (String × Marked)} {key : String} {v w : Marked}
      (h : Rearranged v w) :
      Rearranged (.object id (before ++ (key, v) :: after))
        (.object id (before ++ (key, w) :: after))

/-- Without its marks, the document is rearranged in the same way. -/
theorem Rearranged.erase (h : m.Rearranged m') : m.erase.Rearranged m'.erase := by
  induction h with
  | array h =>
      rw [Marked.erase, Marked.erase, eraseItems_eq_map, eraseItems_eq_map]
      exact .array (h.map _)
  | item _ ih =>
      rw [Marked.erase, Marked.erase, eraseItems_eq_map, eraseItems_eq_map, List.map_append,
        List.map_append]
      exact .item ih
  | member _ ih =>
      rw [Marked.erase, Marked.erase, eraseMembers_eq_map, eraseMembers_eq_map, List.map_append,
        List.map_append]
      exact .member ih

/-- Under the marks of an array is an array. -/
theorem exists_of_erase_eq_array {items : List Json} (h : m.erase = .array items) :
    ∃ ms, m = .array ms ∧ ms.map Marked.erase = items := by
  cases m with
  | array ms =>
      rw [Marked.erase, eraseItems_eq_map, Json.array.injEq] at h
      exact ⟨ms, rfl, h⟩
  | null | bool _ | number _ | string _ | object _ _ =>
      rw [Marked.erase] at h
      cases h

/-- Under the marks of an object is an object. -/
theorem exists_of_erase_eq_object {members : List (String × Json)}
    (h : m.erase = .object members) :
    ∃ id ms, m = .object id ms ∧ (ms.map fun m => (m.1, m.2.erase)) = members := by
  cases m with
  | object id ms =>
      rw [Marked.erase, eraseMembers_eq_map, Json.object.injEq] at h
      exact ⟨id, ms, rfl, h⟩
  | null | bool _ | number _ | string _ | array _ =>
      rw [Marked.erase] at h
      cases h

/-- The marks follow the elements, by induction on how the document is rearranged: a
    permutation of what is left without marks comes from one with them. -/
theorem exists_rearranged {a b : Json} (h : a.Rearranged b) (hm : m.erase = a) :
    ∃ m', m.Rearranged m' ∧ m'.erase = b := by
  induction h generalizing m with
  | @array items items' h =>
      rcases exists_of_erase_eq_array hm with ⟨ms, rfl, rfl⟩
      -- The marked elements can be exchanged as the unmarked ones are.
      have hcomp : Relation.Comp (fun vs ms => vs = ms.map Marked.erase) List.Perm items' ms := by
        rw [List.eq_map_comp_perm]
        exact h.symm
      rcases hcomp with ⟨ms', rfl, hperm⟩
      exact ⟨.array ms', .array hperm.symm, by rw [Marked.erase, eraseItems_eq_map]⟩
  | item _ ih =>
      rcases exists_of_erase_eq_array hm with ⟨ms, rfl, heq⟩
      -- The element that changes is found again among the marked ones.
      rcases List.map_eq_append_iff.mp heq with ⟨before, rest, rfl, rfl, hrest⟩
      rcases List.map_eq_cons_iff.mp hrest with ⟨v, after, rfl, hv, rfl⟩
      rcases ih hv with ⟨w, hvw, rfl⟩
      refine ⟨.array (before ++ w :: after), .item hvw, ?_⟩
      rw [Marked.erase, eraseItems_eq_map, List.map_append, List.map_cons]
  | member _ ih =>
      rcases exists_of_erase_eq_object hm with ⟨id, ms, rfl, heq⟩
      rcases List.map_eq_append_iff.mp heq with ⟨before, rest, rfl, rfl, hrest⟩
      rcases List.map_eq_cons_iff.mp hrest with ⟨⟨key, v⟩, after, rfl, hv, rfl⟩
      cases hv
      rcases ih rfl with ⟨w, hvw, rfl⟩
      refine ⟨.object id (before ++ (key, w) :: after), .member hvw, ?_⟩
      rw [Marked.erase, eraseMembers_eq_map, List.map_append, List.map_cons]

/-- However a document is rearranged, its marks can be carried along. -/
theorem rearranged_erase_iff {b : Json} :
    m.erase.Rearranged b ↔ ∃ m', m.Rearranged m' ∧ m'.erase = b :=
  ⟨fun h => exists_rearranged h rfl, fun ⟨_, h, heq⟩ => heq ▸ h.erase⟩

/-! ### Matching documents -/

/-- Two marked documents hold the same, up to the order of elements and with the
    marks of objects paired. -/
inductive Matches (E : ClassId → ClassId → Prop) : Marked → Marked → Prop where
  | null : Matches E .null .null
  | bool (b : Bool) : Matches E (.bool b) (.bool b)
  | number (n : Json.Number) : Matches E (.number n) (.number n)
  | string (x : String) : Matches E (.string x) (.string x)
  | array {R : Marked → Marked → Prop} {items items' : List Marked}
      (hR : ∀ v w, R v w → Matches E v w) (h : Paired R {v | v ∈ items} {w | w ∈ items'}) :
      Matches E (.array items) (.array items')
  | object {R : Marked → Marked → Prop} {id id' : ClassId}
      {members members' : List (String × Marked)} (hR : ∀ v w, R v w → Matches E v w)
      (hid : E id id')
      (h : Paired (fun m m' => m.1 = m'.1 ∧ R m.2 m'.2) {m | m ∈ members} {m' | m' ∈ members'}) :
      Matches E (.object id members) (.object id' members')

/-- Two members match if their keys are the same and their values match. -/
def MatchesMember (E : ClassId → ClassId → Prop) (m m' : String × Marked) : Prop :=
  m.1 = m'.1 ∧ Matches E m.2 m'.2

/-- Two objects match if their marks are paired and their members match. -/
structure Node.Matches (E : ClassId → ClassId → Prop) (n n' : Node) : Prop where
  id : E n.id n'.id
  members : Paired (MatchesMember E) {m | m ∈ n.members} {m' | m' ∈ n'.members}

/-- What matches an array is an array whose elements match. -/
theorem matches_array_iff {items : List Marked} : Matches E (.array items) w ↔
    ∃ items', w = .array items' ∧ Paired (Matches E) {v | v ∈ items} {w | w ∈ items'} := by
  constructor
  · intro h
    cases h with
    | array hR h => exact ⟨_, rfl, h.mono hR⟩
  · rintro ⟨items', rfl, h⟩
    exact .array (fun _ _ h => h) h

/-- What matches an object is an object that matches as such. -/
theorem matches_object_iff {id : ClassId} {members : List (String × Marked)} :
    Matches E (.object id members) w ↔
      ∃ id' members', w = .object id' members' ∧ Node.Matches E ⟨id, members⟩ ⟨id', members'⟩ := by
  constructor
  · intro h
    cases h with
    | object hR hid h => exact ⟨_, _, rfl, hid, h.mono fun _ _ hm => ⟨hm.1, hR _ _ hm.2⟩⟩
  · rintro ⟨id', members', rfl, h⟩
    exact .object (fun _ _ h => h) h.id h.members

/-- Matching can be read from either side, with the pairs of marks turned around. -/
theorem Matches.symm (h : Matches E v w) : Matches (fun i j => E j i) w v := by
  induction h with
  | null => exact .null
  | bool b => exact .bool b
  | number n => exact .number n
  | string x => exact .string x
  | array _ h ih => exact .array (fun w v => ih v w) h.symm
  | object _ hid h ih =>
      exact .object (fun w v => ih v w) hid (h.symm.mono fun _ _ hm => ⟨hm.1.symm, hm.2⟩)

/-- A document matches whatever its rearrangement matches. -/
theorem Rearranged.matches_of_matches (h : m₀.Rearranged m) (hm : Matches E m m') :
    Matches E m₀ m' := by
  induction h generalizing m' with
  | array hperm =>
      rcases matches_array_iff.mp hm with ⟨items'', rfl, h⟩
      refine matches_array_iff.mpr ⟨items'', rfl, fun v hv => h.left v (hperm.mem_iff.mp hv),
        fun w hw => ?_⟩
      exact (h.right w hw).imp fun v hv => ⟨hperm.mem_iff.mpr hv.1, hv.2⟩
  | item _ ih =>
      rcases matches_array_iff.mp hm with ⟨items', rfl, h⟩
      exact matches_array_iff.mpr ⟨items', rfl, h.replace fun _ => ih⟩
  | member _ ih =>
      rcases matches_object_iff.mp hm with ⟨id', members', rfl, hid, h⟩
      refine matches_object_iff.mpr ⟨id', members', rfl, hid, h.replace fun m' hmatch => ?_⟩
      exact ⟨hmatch.1, ih hmatch.2⟩

/-! ### Two markings of a document -/

mutual

/-- Marks do not change how many objects there are. -/
theorem length_nodes (v : Marked) : v.nodes.length = v.erase.objects := by
  cases v with
  | null | bool _ | number _ | string _ => rw [nodes.eq_def, erase.eq_def]; rfl
  | array items =>
      rw [nodes, erase, Json.objects]
      exact length_nodesOfItems items
  | object id members =>
      rw [nodes, erase, Json.objects, List.length_cons, length_nodesOfMembers members]

/-- The same of elements. -/
theorem length_nodesOfItems (items : List Marked) :
    (nodesOfItems items).length = Json.objectsOfItems (eraseItems items) := by
  cases items with
  | nil => rfl
  | cons v rest =>
      rw [nodesOfItems, eraseItems, Json.objectsOfItems, List.length_append, length_nodes v,
        length_nodesOfItems rest]

/-- The same of members. -/
theorem length_nodesOfMembers (members : List (String × Marked)) :
    (nodesOfMembers members).length = Json.objectsOfMembers (eraseMembers members) := by
  cases members with
  | nil => rfl
  | cons m rest =>
      rcases m with ⟨key, v⟩
      rw [nodesOfMembers, eraseMembers, Json.objectsOfMembers, List.length_append,
        length_nodes v, length_nodesOfMembers rest]

end

mutual

/-- Two markings of one document match if the marks of the same places are pairs. -/
theorem matches_of_erase_eq (v w : Marked) (h : v.erase = w.erase)
    (hE : ∀ p ∈ v.nodes.zip w.nodes, E p.1.id p.2.id) : Matches E v w := by
  cases v with
  | null =>
      cases w with
      | null => exact .null
      -- Documents of different kinds are not the same when the marks are taken away.
      | _ => rw [erase, erase] at h; cases h
  | bool b =>
      cases w with
      | bool b' => rw [erase, erase] at h; cases h; exact .bool b
      | _ => rw [erase, erase] at h; cases h
  | number n =>
      cases w with
      | number n' => rw [erase, erase] at h; cases h; exact .number n
      | _ => rw [erase, erase] at h; cases h
  | string x =>
      cases w with
      | string x' => rw [erase, erase] at h; cases h; exact .string x
      | _ => rw [erase, erase] at h; cases h
  | array items =>
      cases w with
      | array items' =>
          rw [erase, erase, Json.array.injEq] at h
          rw [nodes, nodes] at hE
          exact .array (fun _ _ h => h)
            (paired_of_forall₂ (matchesItems_of_erase_eq items items' h hE))
      | _ => rw [erase, erase] at h; cases h
  | object id members =>
      cases w with
      | object id' members' =>
          rw [erase, erase, Json.object.injEq] at h
          -- The marks of the two objects come first, and then those of their members.
          rw [nodes, nodes, List.zip_cons_cons, List.forall_mem_cons] at hE
          exact .object (fun _ _ h => h) hE.1
            (paired_of_forall₂ (matchesMembers_of_erase_eq members members' h hE.2))
      | _ => rw [erase, erase] at h; cases h

/-- The same of elements, which match position by position. -/
theorem matchesItems_of_erase_eq (items items' : List Marked)
    (h : eraseItems items = eraseItems items')
    (hE : ∀ p ∈ (nodesOfItems items).zip (nodesOfItems items'), E p.1.id p.2.id) :
    List.Forall₂ (Matches E) items items' := by
  cases items with
  | nil => cases items' with
    | nil => exact .nil
    | cons w rest => cases h
  | cons v rest => cases items' with
    | nil => cases h
    | cons w rest' =>
        rw [eraseItems, eraseItems, List.cons.injEq] at h
        -- Both first values have as many objects, so the others are paired among
        -- themselves.
        have hlen : v.nodes.length = w.nodes.length := by
          rw [length_nodes, length_nodes, h.1]
        rw [nodesOfItems, nodesOfItems, List.zip_append hlen, List.forall_mem_append] at hE
        exact .cons (matches_of_erase_eq v w h.1 hE.1)
          (matchesItems_of_erase_eq rest rest' h.2 hE.2)

/-- The same of members. -/
theorem matchesMembers_of_erase_eq (members members' : List (String × Marked))
    (h : eraseMembers members = eraseMembers members')
    (hE : ∀ p ∈ (nodesOfMembers members).zip (nodesOfMembers members'), E p.1.id p.2.id) :
    List.Forall₂ (MatchesMember E) members members' := by
  cases members with
  | nil => cases members' with
    | nil => exact .nil
    | cons m rest => cases h
  | cons m rest => cases members' with
    | nil => cases h
    | cons m' rest' =>
        rcases m with ⟨key, v⟩
        rcases m' with ⟨key', w⟩
        rw [eraseMembers, eraseMembers, List.cons.injEq, Prod.mk.injEq] at h
        have hlen : v.nodes.length = w.nodes.length := by
          rw [length_nodes, length_nodes, h.1.2]
        rw [nodesOfMembers, nodesOfMembers, List.zip_append hlen, List.forall_mem_append] at hE
        exact .cons ⟨h.1.1, matches_of_erase_eq v w h.1.2 hE.1⟩
          (matchesMembers_of_erase_eq rest rest' h.2 hE.2)

end

/-! ### Values of matching documents -/

/-- An object in a document has one that it matches in any matching document. -/
theorem Matches.exists_node (h : Matches E v w) :
    ∀ n ∈ v.nodes, ∃ n' ∈ w.nodes, n.Matches E n' := by
  induction v using Marked.induction generalizing w with
  | null | bool _ | number _ | string _ =>
      intro n hn
      rw [Marked.nodes.eq_def] at hn
      exact absurd hn List.not_mem_nil
  | array items ih =>
      intro n hn
      rcases matches_array_iff.mp h with ⟨items', rfl, hitems⟩
      rw [Marked.nodes] at hn ⊢
      rcases mem_nodesOfItems.mp hn with ⟨v, hv, hn⟩
      -- The object lies in an element, which has a partner.
      rcases hitems.left v hv with ⟨w, hw, hvw⟩
      rcases ih v hv hvw n hn with ⟨n', hn', hmatch⟩
      exact ⟨n', mem_nodesOfItems.mpr ⟨w, hw, hn'⟩, hmatch⟩
  | object id members ih =>
      intro n hn
      rcases matches_object_iff.mp h with ⟨id', members', rfl, hself⟩
      rw [Marked.nodes] at hn ⊢
      rcases List.mem_cons.mp hn with rfl | hn
      · exact ⟨_, List.mem_cons_self, hself⟩
      · rcases mem_nodesOfMembers.mp hn with ⟨m, hm, hn⟩
        rcases hself.members.left m hm with ⟨m', hm', hmatch⟩
        rcases ih m hm hmatch.2 n hn with ⟨n', hn', hnode⟩
        exact ⟨n', List.mem_cons_of_mem _ (mem_nodesOfMembers.mpr ⟨m', hm', hn'⟩), hnode⟩

/-- Objects can be read from either side, too. -/
theorem Node.Matches.symm {n n' : Node} (h : n.Matches E n') :
    n'.Matches (fun i j => E j i) n where
  id := h.id
  members := h.members.symm.mono fun _ _ hm => ⟨hm.1.symm, hm.2.symm⟩

/-- The objects of matching documents match. -/
theorem Matches.nodes (h : Matches E v w) :
    Paired (Node.Matches E) {n | n ∈ v.nodes} {n | n ∈ w.nodes} where
  left := h.exists_node
  right n' hn' := (h.symm.exists_node n' hn').imp fun _ hn => ⟨hn.1, hn.2.symm⟩

/-- An element among some values has one that it matches among matching values. -/
theorem exists_element {vs ws : Set Marked} (h : ∀ v ∈ vs, ∃ w ∈ ws, Matches E v w) :
    ∀ v ∈ elements vs, ∃ w ∈ elements ws, Matches E v w := by
  rintro v ⟨items, hitems, hv⟩
  rcases h _ hitems with ⟨w, hw, hmatch⟩
  rcases matches_array_iff.mp hmatch with ⟨items', rfl, hpaired⟩
  rcases hpaired.left v hv with ⟨w, hmem, hvw⟩
  exact ⟨w, ⟨items', hw, hmem⟩, hvw⟩

/-- So do the elements of matching arrays. -/
theorem paired_elements {vs ws : Set Marked} (h : Paired (Matches E) vs ws) :
    Paired (Matches E) (elements vs) (elements ws) where
  left := exists_element h.left
  right w hw := by
    have hright : ∀ w ∈ ws, ∃ v ∈ vs, Matches (fun i j => E j i) w v := fun w hw =>
      (h.right w hw).imp fun v hv => ⟨hv.1, hv.2.symm⟩
    exact (exists_element hright w hw).imp fun v hv => ⟨hv.1, hv.2.symm⟩

end Marked

end DartModels
