import DartModels.Proofs.Success
import DartModels.Proofs.Tightness

/-!
# Tightness of inference

The classes of a document say nothing that the document does not show.

The objects that account for a class are objects of the document, marked with
the numbers that the walk gave them. The set of them is fixed from the start.
That it holds objects which the walk has not come to yet does no harm: their
numbers are not given out, and so they belong to no class of the table at hand.

## Main definitions

* `Inference.Accounts`: What members say about the fields made of them.

## Theorems

* `Inference.tight_observe`: A value accounts for its slot, and the walk over
  it keeps all classes accounted for.
* `Catalog.tight_of_ofDocument`: Nothing is invented in the classes of a document.
-/

namespace DartModels

open Marked (Node)
open ClassTable

variable {S : Set Node}

/-! ### New classes -/

/-- The members of an object account for fields made of them. -/
theorem ClassTable.grounded_of_members {t t' : ClassTable} (ht : t.WellFormed)
    (he : Evolves t t') {n : Node} (hn : n ∈ S) {i : ClassId} (hi : t'.resolve n.id = t'.resolve i)
    {fields : List Field} (hk : Field.KnownAll t.entries.size fields)
    (hfrom : ∀ f ∈ fields, ∃ v, (f.key, v) ∈ n.members ∧ f.slot.Tight t {v})
    (hto : ∀ m ∈ n.members, ∃ f ∈ fields, f.key = m.1) : t'.Grounded S i fields where
  node := ⟨n, hn, hi⟩
  field f hf := by
    rcases hfrom f hf with ⟨v, hv, htight⟩
    refine ⟨⟨n, ⟨hn, hi⟩, v, hv⟩, fun hnull => ⟨n, ⟨hn, hi⟩, Or.inr ?_⟩, ?_⟩
    · have hnv : Marked.null = v := htight.1 hnull
      exact hnv ▸ hv
    · refine htight.2.mono ht.linked he (hk f hf) fun w hw => ?_
      have hwv : w = v := hw
      exact hwv ▸ ⟨n, ⟨hn, hi⟩, hv⟩
  absent key hkey := by
    refine ⟨n, ⟨hn, hi⟩, fun m hm he => ?_⟩
    rcases hto m hm with ⟨f, hf, hfm⟩
    exact hkey f hf (hfm.trans he)

/-- A table with one more class, which is accounted for. -/
theorem ClassTable.AllGrounded.added {t t' : ClassTable} (hall : t.AllGrounded S)
    (ht : t.WellFormed) (hl : t'.Linked) (he : Evolves t t') {name : String} {fields : List Field}
    (hat : ∀ i, t'.at? i = if i = t.entries.size then
      some ⟨t.entries.size, name, t.canonical fields⟩ else t.at? i)
    (hk : Field.KnownAll t.entries.size fields) (hg : t'.Grounded S t.entries.size fields) :
    t'.AllGrounded S := by
  intro i d hd
  rw [hat] at hd
  by_cases hi : i = t.entries.size
  · rw [if_pos hi] at hd
    rw [hi, ← Option.some.inj hd, ← grounded_canonical hl, he.canonical_canonical hk,
      grounded_canonical hl]
    exact hg
  · rw [if_neg hi] at hd
    exact (hall i d hd).mono ht.linked he (lt_of_at? hd) (ht.known i d hd)

/-- Fields are accounted for under their keys, so they may be given names. -/
theorem Field.grounded_withNames {t : ClassTable} {i : ClassId} {fields : List Field}
    (h : t.Grounded S i fields) : t.Grounded S i (withNames fields) := by
  refine h.of_mem (fun f hf => ?_) fun g hg => ?_
  · rcases exists_mem_withNames hf with ⟨g, hg, hkey, _⟩
    exact ⟨g, hg, hkey⟩
  · rcases mem_withNames hg with ⟨f, hf, hkey, hslot⟩
    exact ⟨f, hf, hkey, by rw [hslot], fun htight => by rw [hslot]; exact htight⟩

namespace Inference

/-- What the members of an object say about the fields made of them. -/
def Accounts (t : ClassTable) (members : List (String × Marked)) (fields : List Field) : Prop :=
  (∀ f ∈ fields, ∃ v, (f.key, v) ∈ members ∧ f.slot.Tight t {v}) ∧
    ∀ m ∈ members, ∃ f ∈ fields, f.key = m.1

/-- The step of the walk that adds classes: an object accounts for its class, be it new
    or one that is there already, and so for what its registration sets aside. -/
theorem allGrounded_registerObject {t t' : ClassTable} (ht : t.WellFormed)
    (hall : t.AllGrounded S) {hint : String} {fields : List Field} {s : Slot}
    {members : List (String × Marked)} (hk : Field.KnownAll t.entries.size fields)
    (hacc : Accounts t members fields)
    (heq : registerObject t hint (Field.withNames fields) = (.ok s, t'))
    (hn : ⟨classOf (.ok s, t'), members⟩ ∈ S) :
    t'.AllGrounded S ∧ s.Tight t' {.object (classOf (.ok s, t')) members} ∧
      t.Drops S [.register (Identifier.typeName hint fallbackName) (Field.withNames fields)] := by
  -- The slot refers to the class whose number the object is marked with.
  have hslot : ∀ id, s = Slot.required (.ref id) →
      s.Tight t' {.object (classOf (.ok s, t')) members} := by
    rintro id rfl
    exact ⟨fun hnull => absurd hnull Bool.false_ne_true, id, members, rfl, rfl⟩
  rcases registerObject_eq_ok heq with ⟨id, hl, rfl, rfl⟩ | ⟨name, hl, rfl, rfl⟩
  · refine ⟨hall, hslot id rfl, fun d hd => ?_⟩
    -- The object is one more of a class that is there.
    simp only [discards, Operation.discards, hl, List.append_nil, List.mem_singleton] at hd
    rcases ht.linked.lookup?_eq_some hl with ⟨c, hc, _⟩
    rw [hd, run_register, heq]
    exact ⟨lt_of_at? hc, knownAll_withNames hk, Field.grounded_withNames
      (grounded_of_members ht (Evolves.refl ht.linked) hn rfl hk hacc.1 hacc.2)⟩
  · -- A new class has this object and no other, and nothing is set aside.
    refine ⟨?_, hslot _ rfl, fun d hd => ?_⟩
    · have he := Evolves.push ht name (t.canonical (Field.withNames fields))
      have hpush := ht.push name (ht.linked.canonical_live (knownAll_withNames hk))
      exact hall.added ht hpush.linked he (at?_push t name _) (knownAll_withNames hk)
        (Field.grounded_withNames (grounded_of_members ht he hn rfl hk hacc.1 hacc.2))
    · simp only [discards, Operation.discards, hl, List.append_nil, List.not_mem_nil] at hd

/-- The class of the root is accounted for by the document itself. -/
theorem allGrounded_registerPinned {t : ClassTable} (ht : t.WellFormed) (hp : t.pinned = none)
    (hall : t.AllGrounded S) {name : String} {fields : List Field}
    {members : List (String × Marked)} (hk : Field.KnownAll t.entries.size fields)
    (hacc : Accounts t members fields)
    (hn : ⟨(t.registerPinned name (Field.withNames fields)).1, members⟩ ∈ S) :
    (t.registerPinned name (Field.withNames fields)).2.AllGrounded S := by
  have hpin := ht.registerPinned name (knownAll_withNames hk)
  have he := Evolves.registerPinned ht name (Field.withNames fields) hp
  exact hall.added ht hpin.linked he (at?_push t name _) (knownAll_withNames hk)
    (Field.grounded_withNames (grounded_of_members ht he hn rfl hk hacc.1 hacc.2))

/-! ### The walk -/

/-- What the elements account for one by one the array accounts for as a whole. -/
theorem allGrounded_joinElements {t t' : ClassTable} (ht : t.WellFormed) (hall : t.AllGrounded S)
    {slots : List Slot} {items : List Marked} (hk : ∀ s ∈ slots, s.Known t.entries.size)
    (hs : ∀ s ∈ slots, s.Tight t {v | v ∈ items}) {s : Slot}
    (heq : joinElements t slots = (.ok s, t')) :
    t'.AllGrounded S ∧ s.Tight t' {.array items} ∧ t.Drops S (t.joinAllOps slots) := by
  have helements : ∀ v ∈ {v | v ∈ items}, v ∈ elements {Marked.array items} :=
    fun v hv => ⟨items, rfl, hv⟩
  -- An empty array leaves nothing to join: it accounts for a list of what is not known.
  cases slots with
  | nil =>
      cases heq
      exact ⟨hall, ⟨fun hnull => absurd hnull Bool.false_ne_true, ⟨items, rfl⟩,
        fun hnull => absurd hnull Bool.false_ne_true, trivial⟩, drops_nil t S⟩
  | cons acc rest =>
      have hkr : ∀ r ∈ rest, r.Known t.entries.size :=
        fun r hr => hk r (List.mem_cons_of_mem acc hr)
      rcases tight_joinOnto ht hall (hk acc List.mem_cons_self) hkr (hs acc List.mem_cons_self)
        fun r hr => hs r (List.mem_cons_of_mem acc hr) with ⟨hall', htight, hdrops⟩
      rcases ht.joinOnto (hk acc List.mem_cons_self) hkr with ⟨hc, hk', _⟩
      simp only [joinElements, ClassTable.joinAll] at heq
      cases heq
      rw [← hc.entries_size] at hk'
      have hmono := htight.mono hc.wellFormed.linked (Evolves.refl hc.wellFormed.linked) hk'
        helements
      exact ⟨hall', ⟨fun hnull => absurd hnull Bool.false_ne_true, ⟨items, rfl⟩, hmono⟩, hdrops⟩

mutual

/-- A value accounts for its slot, and the objects in it for the classes that
    the walk over it adds. -/
theorem tight_observe {o : Options} (hm : o.mergeArrays = true) {t t' : ClassTable}
    (ht : t.WellFormed) (hall : t.AllGrounded S) (hint : String) (depth : Nat) (path : List Step)
    (v : Json) {s : Slot} (heq : observe o t hint depth path v = (.ok s, t'))
    (hS : ∀ n ∈ (mark o t hint depth path v).nodes, n ∈ S) :
    t'.AllGrounded S ∧ s.Tight t' {mark o t hint depth path v} ∧
      t.Drops S (observeOps o t hint depth path v) := by
  have hd := le_maxDepth_of_observe_eq_ok heq
  have hnil := drops_nil t S
  -- A value without parts leaves the table as it is, and is itself what its slot is tight in.
  cases v with
  | null =>
      rw [observe.eq_def, if_neg hd] at heq
      rw [observeOps.eq_def, if_neg hd, mark.eq_def]
      cases heq
      exact ⟨hall, ⟨fun _ => rfl, trivial⟩, hnil⟩
  | bool b =>
      rw [observe.eq_def, if_neg hd] at heq
      rw [observeOps.eq_def, if_neg hd, mark.eq_def]
      cases heq
      exact ⟨hall, ⟨fun hnull => absurd hnull Bool.false_ne_true, b, rfl⟩, hnil⟩
  | number n =>
      rw [observe.eq_def, if_neg hd] at heq
      rw [observeOps.eq_def, if_neg hd, mark.eq_def]
      cases heq
      refine ⟨hall, ⟨fun hnull => absurd hnull Bool.false_ne_true, ?_⟩, hnil⟩
      simp only [Slot.required, numberShape]
      split
      · rename_i hn
        exact ⟨n, rfl, hn⟩
      · rename_i hn
        exact ⟨n, rfl, Bool.not_eq_true _ ▸ hn⟩
  | string x =>
      rw [observe.eq_def, if_neg hd] at heq
      rw [observeOps.eq_def, if_neg hd, mark.eq_def]
      cases heq
      exact ⟨hall, ⟨fun hnull => absurd hnull Bool.false_ne_true, x, rfl⟩, hnil⟩
  | array items =>
      -- The elements are tight one by one, and joining their slots keeps them so.
      rcases observe_array_eq_ok heq with ⟨slots, t₁, hitems, hjoin, hops⟩
      rw [mark.eq_def, Marked.nodes.eq_def] at hS
      rw [hops, mark.eq_def]
      rcases leads_observeItems ht hitems with ⟨hl, hk⟩
      rcases tight_observeItems hm ht hall hint (depth + 1) path 0 items hitems hS with
        ⟨hall₁, hslots, hdrops⟩
      rcases allGrounded_joinElements hl.wellFormed hall₁ hk hslots hjoin with
        ⟨hall₂, htight, hdrops'⟩
      exact ⟨hall₂, htight,
        hdrops.append hdrops' hl (leads_joinElements hl.wellFormed hk hjoin)⟩
  | object members =>
      -- The mark of the object is the number in its slot, so the new class has this object.
      have hclass : classOf (observe o t hint depth path (.object members)) =
          classOf (.ok s, t') := by rw [heq]
      rcases observe_object_eq_ok heq with ⟨fields, t₁, hmembers, hreg, hops⟩
      rw [mark.eq_def, Marked.nodes.eq_def] at hS
      rw [hops, mark.eq_def]
      simp only [hclass] at hS ⊢
      rcases leads_observeMembers ht hmembers with ⟨hl, hk⟩
      rcases tight_observeMembers hm ht hall (depth + 1) path members hmembers
        (fun n hn => hS n (List.mem_cons_of_mem _ hn)) with ⟨hall₁, hacc, hdrops⟩
      rcases allGrounded_registerObject hl.wellFormed hall₁ hk hacc hreg
        (hS _ List.mem_cons_self) with ⟨hall₂, htight, hdrops'⟩
      exact ⟨hall₂, htight, hdrops.append hdrops' hl
        (leads_registerObject hl.wellFormed (knownAll_withNames hk) hreg)⟩

/-- The same of the elements of an array. This is where merging of arrays matters:
    without it the walk leaves elements out. -/
theorem tight_observeItems {o : Options} (hm : o.mergeArrays = true) {t t' : ClassTable}
    (ht : t.WellFormed) (hall : t.AllGrounded S) (hint : String) (depth : Nat) (path : List Step)
    (i : Nat) (items : List Json) {slots : List Slot}
    (heq : observeItems o t hint depth path i items = (.ok slots, t'))
    (hS : ∀ n ∈ Marked.nodesOfItems (markItems o t hint depth path i items), n ∈ S) :
    t'.AllGrounded S ∧
      (∀ s ∈ slots, s.Tight t' {v | v ∈ markItems o t hint depth path i items}) ∧
      t.Drops S (observeItemsOps o t hint depth path i items) := by
  cases items with
  | nil =>
      rw [observeItems.eq_def] at heq
      cases heq
      exact ⟨hall, fun s hs => absurd hs List.not_mem_nil, drops_nil _ S⟩
  | cons v rest =>
      rcases observeItems_cons_eq_ok (Or.inl hm) heq with
        ⟨slot, slots', t₁, rfl, hfirst, hrest, hops⟩
      rw [markItems.eq_def] at hS ⊢
      simp only [hfirst] at hS ⊢
      rw [Marked.nodesOfItems.eq_def] at hS
      rw [hops]
      rcases leads_observe ht hfirst with ⟨hl, hk⟩
      rcases leads_observeItems hl.wellFormed hrest with ⟨hl', hk'⟩
      rcases tight_observe hm ht hall hint depth (.index i :: path) v hfirst
        (fun n hn => hS n (List.mem_append_left _ hn)) with ⟨hall₁, hslot, hdrops⟩
      rcases tight_observeItems hm hl.wellFormed hall₁ hint depth path (i + 1) rest hrest
        (fun n hn => hS n (List.mem_append_right _ hn)) with ⟨hall₂, hslots, hdrops'⟩
      refine ⟨hall₂, fun s hs => ?_, hdrops.append hdrops' hl hl'⟩
      rcases List.mem_cons.mp hs with rfl | hs
      -- The first slot was made before the rest was walked over.
      · refine hslot.mono hl.wellFormed.linked hl'.evolves hk fun w hw => ?_
        exact List.mem_cons.mpr (Or.inl hw)
      · exact (hslots s hs).mono hl'.wellFormed.linked (Evolves.refl hl'.wellFormed.linked)
          (hk' s hs) fun w hw => List.mem_cons_of_mem _ hw

/-- The same of the members of an object. -/
theorem tight_observeMembers {o : Options} (hm : o.mergeArrays = true) {t t' : ClassTable}
    (ht : t.WellFormed) (hall : t.AllGrounded S) (depth : Nat) (path : List Step)
    (members : List (String × Json)) {fields : List Field}
    (heq : observeMembers o t depth path members = (.ok fields, t'))
    (hS : ∀ n ∈ Marked.nodesOfMembers (markMembers o t depth path members), n ∈ S) :
    t'.AllGrounded S ∧ Accounts t' (markMembers o t depth path members) fields ∧
      t.Drops S (observeMembersOps o t depth path members) := by
  cases members with
  | nil =>
      rw [observeMembers.eq_def] at heq
      rw [markMembers.eq_def]
      cases heq
      exact ⟨hall, ⟨fun f hf => absurd hf List.not_mem_nil,
        fun m hm => absurd hm List.not_mem_nil⟩, drops_nil _ S⟩
  | cons member rest =>
      rcases member with ⟨key, v⟩
      rcases observeMembers_cons_eq_ok heq with ⟨slot, fields', t₁, rfl, hfirst, hrest, hops⟩
      rw [markMembers.eq_def] at hS ⊢
      simp only [hfirst] at hS ⊢
      rw [Marked.nodesOfMembers.eq_def] at hS
      rw [hops]
      rcases leads_observe ht hfirst with ⟨hl, hk⟩
      have hl' := (leads_observeMembers hl.wellFormed hrest).1
      rcases tight_observe hm ht hall key depth (.key key :: path) v hfirst
        (fun n hn => hS n (List.mem_append_left _ hn)) with ⟨hall₁, hslot, hdrops⟩
      rcases tight_observeMembers hm hl.wellFormed hall₁ depth path rest hrest
        (fun n hn => hS n (List.mem_append_right _ hn)) with ⟨hall₂, ⟨hfrom, hto⟩, hdrops'⟩
      refine ⟨hall₂, ⟨fun f hf => ?_, fun m hm => ?_⟩, hdrops.append hdrops' hl hl'⟩
      · -- Keys come from the members, and a slot that was tight after its own member still
        -- is.
        rcases List.mem_cons.mp hf with rfl | hf
        · exact ⟨_, List.mem_cons_self,
            hslot.mono hl.wellFormed.linked hl'.evolves hk fun _ hw => hw⟩
        · rcases hfrom f hf with ⟨u, hu, htight⟩
          exact ⟨u, List.mem_cons_of_mem _ hu, htight⟩
      · rcases List.mem_cons.mp hm with rfl | hm
        · exact ⟨_, List.mem_cons_self, rfl⟩
        · rcases hto m hm with ⟨f, hf, hfm⟩
          exact ⟨f, List.mem_cons_of_mem _ hf, hfm⟩

end

/-- The marked document, once it is known how its root came about. -/
theorem markRoot_of_ok {o : Options} {t t' : ClassTable} {name : String}
    {members : List (String × Json)} {root : ClassId}
    (h : observeRoot o t name (.object members) = (.ok root, t')) :
    markRoot o t name (.object members) =
      .object root (markMembers o (t.reserveName name) 1 [] members) := by
  simp only [markRoot, h]

/-- The objects of a document account for the classes it leaves behind. -/
theorem allGrounded_observeRoot {o : Options} (hm : o.mergeArrays = true) (name : String)
    (v : Json) {root : ClassId} {t : ClassTable}
    (heq : observeRoot o .empty name v = (.ok root, t)) :
    t.AllGrounded {n | n ∈ (markRoot o .empty name v).nodes} ∧
      ClassTable.empty.Drops {n | n ∈ (markRoot o .empty name v).nodes}
        (observeRootOps o .empty name v) := by
  rcases observeRoot_eq_ok heq with ⟨members, fields, t₁, rfl, hmembers, hpin, hops⟩
  have hw := WellFormed.empty.rewrites_self (rewrites_reserveName .empty name)
  -- There are no classes to account for at first.
  have hall : (ClassTable.empty.reserveName name).AllGrounded
      {n | n ∈ (markRoot o .empty name (.object members)).nodes} :=
    fun i c hc => absurd (lt_of_at? hc) (Nat.not_lt_zero i)
  -- The root is marked with its number, and its members account for its fields like those
  -- of any other object; only that its class is pinned.
  rw [markRoot_of_ok heq, Marked.nodes.eq_def] at hall ⊢
  rw [hops]
  rcases leads_observeMembers hw hmembers with ⟨hl, hk⟩
  have hnone := pinned_observeMembers hw hmembers
  rcases tight_observeMembers hm hw hall 1 [] members hmembers
    (fun n hn => List.mem_cons_of_mem _ hn) with ⟨hall₁, hacc, hdrops⟩
  have hroot : (t₁.registerPinned name (Field.withNames fields)).1 = root := by rw [hpin]
  have htable : (t₁.registerPinned name (Field.withNames fields)).2 = t := by rw [hpin]
  have hlast := leads_registerPinned hl.wellFormed name (knownAll_withNames hk) hnone
  refine ⟨htable ▸ allGrounded_registerPinned hl.wellFormed hnone hall₁ hk hacc ?_, ?_⟩
  · rw [hroot]
    exact List.mem_cons_self
  · exact Drops.reserve (hdrops.append (drops_pin t₁ _ name _) hl hlast)

end Inference

/-- The objects of a document account for the classes of its catalog, and for
    all that was discarded on the way. -/
theorem Catalog.allGrounded {o : Options} (hm : o.mergeArrays = true) {name : String} {v : Json}
    {catalog : Catalog} (h : Catalog.ofDocument o name v = .ok catalog) :
    catalog.table.WellFormed ∧
      catalog.table.AllGrounded {n | n ∈ (Inference.markRoot o .empty name v).nodes} ∧
      ClassTable.empty.Drops {n | n ∈ (Inference.markRoot o .empty name v).nodes}
        (ops o name v) := by
  rcases ofDocument_eq_ok h with ⟨root, t, hr, hl, hfold, rfl⟩
  have hw := hl.wellFormed
  rcases Inference.allGrounded_observeRoot hm name v hr with ⟨hall, hdrops⟩
  exact ⟨hfold.wellFormed,
    hall.descends hw.toValid hfold.wellFormed.toValid hw.descends_foldDuplicates,
    hdrops.append (hall.drops_fold hw) hl hfold⟩

/-- Nothing is invented. With the objects of a document marked with the numbers
    that their registration returned, every class that is written out has an
    object, its keys occur in its objects, and its slots are no wider than the
    values in them. -/
theorem Catalog.tight_of_ofDocument {o : Options} (hm : o.mergeArrays = true) (name : String)
    (v : Json) {catalog : Catalog} (h : Catalog.ofDocument o name v = .ok catalog) :
    (Inference.markRoot o .empty name v).erase = v ∧
      ∀ c ∈ catalog.classes, catalog.table.resolve c.id = c.id ∧
        catalog.table.Grounded {n | n ∈ (Inference.markRoot o .empty name v).nodes} c.id
          c.fields := by
  refine ⟨Inference.erase_markRoot o .empty name v, fun c hc => ?_⟩
  rcases allGrounded hm h with ⟨hw, hall, _⟩
  rcases List.mem_filterMap.mp hc with ⟨id, _, hat⟩
  have hid := hw.id_eq _ c hat
  rw [find?_eq_at?, ← hid] at hat
  exact ⟨resolve_of_at? hat, hall c.id c hat⟩

/-- A document whose elements are merged, and an object that is folded into them. -/
theorem Catalog.tight_of_ofDocument_elements : ∃ catalog,
    Catalog.ofDocument {} "List" Inference.elementsDocument = .ok catalog ∧
      ∀ c ∈ catalog.classes, catalog.table.Grounded
        {n | n ∈ (Inference.markRoot {} .empty "List" Inference.elementsDocument).nodes} c.id
          c.fields := by
  rcases Inference.ofDocument_elementsDocument with ⟨catalog, hc⟩
  exact ⟨catalog, hc, fun c hmem =>
    ((tight_of_ofDocument rfl "List" Inference.elementsDocument hc).2 c hmem).2⟩

end DartModels
