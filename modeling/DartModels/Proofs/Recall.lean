import DartModels.Proofs.Distinct
import DartModels.Proofs.Fitting
import DartModels.Proofs.Observation
import DartModels.Proofs.Retention

/-!
# Looking back on the walk

What is left of a document at the end of the walk over it.

Every stretch of the walk is looked back on from the final table. `Recalls` is
what can then be said of it: the classes before the stretch are kept if those
after it are, and the values that were seen in it fit the slots that they led
to. Stretches follow one another by `Recalls.append`, and the walk over a value
recalls it by induction on the document.

Keys have to be distinct for this. A field list with a key twice would say two
things of one member, and a class could cover only one of them.

## Main definitions

* `Recalls`: What can be said of a stretch of the walk.
* `Sound`: A value fits a slot and its objects are described.

## Theorems

* `Recalls.append`: One stretch after another.
* `Inference.recalls_observe`: Nothing that the walk sees of a value is lost but
  by what is discarded.
-/

namespace DartModels

open ClassTable

variable {t t' z : ClassTable} {D : Set ClassId}

/-- A value fits a slot, and its objects are described by the classes that stand
    for them. Those in classes of `D` need not be. -/
def Sound (z : ClassTable) (D : Set ClassId) (v : Marked) (s : Slot) : Prop :=
  Fits z v s ∧ ∀ n ∈ v.nodes, z.resolve n.id ∈ D ∨ z.Describes n

/-- A value that is sound in a slot is so in any above it. -/
theorem Sound.mono {v : Marked} {s g : Slot} (h : Sound z D v s) (hle : z.SlotWithin s g) :
    Sound z D v g :=
  ⟨h.1.mono hle, h.2⟩

/-- Names of fields do not matter for what is covered. -/
theorem ClassTable.covers_withNames (z : ClassTable) (fields : List Field) :
    z.Covers fields (Field.withNames fields) := by
  refine covers_of_find? (fun k f hf => ?_) fun k g hg hf => ?_
  · have hslot := Field.map_slot_find?_withNames fields k
    rw [hf, Option.map_some, Option.map_eq_some_iff] at hslot
    rcases hslot with ⟨g, hg, heq⟩
    exact ⟨g, hg, heq ▸ SlotWithin.refl z g.slot⟩
  · have hslot := Field.map_slot_find?_withNames fields k
    rw [hf, hg] at hslot
    cases hslot

/-! ### Going back over the walk -/

/-- Merging by the code keeps what it unites, as it does with any bound that is large
    enough. -/
theorem ClassTable.retains_mergeClasses (hz : z.Linked) (D : Set ClassId) (n : Nat) :
    Retains z D n mergeOps mergeClasses := fun t a b h hk ha hb _ he hd hall =>
  retains_mergeUpTo hz D t.size t a b h hk ha hb (Nat.le_refl _) he hd hall

/-- The slots of the elements are within the slot of the array, and joining them loses
    nothing but what is discarded. By induction on the elements, each joined to what the
    ones before it have come to. -/
theorem ClassTable.retains_joinOnto (hz : z.Linked) (ht : t.WellFormed) (hkt : t.Keyed)
    {acc : Slot} {slots : List Slot} (hk : acc.Known t.entries.size)
    (hks : ∀ s ∈ slots, s.Known t.entries.size) (he : Evolves (t.joinOnto acc slots).2 z) :
    (z.SlotWithin acc (t.joinOnto acc slots).1 ∧
        ∀ s ∈ slots, z.SlotWithin s (t.joinOnto acc slots).1) ∧
      ((∀ d ∈ t.discards (t.joinOntoOps acc slots), z.Kept D d.1 d.2) →
        z.AllKept D (t.joinOnto acc slots).2 → z.AllKept D t) := by
  induction slots generalizing t acc with
  | nil => exact ⟨⟨SlotWithin.refl z acc, fun s hs => absurd hs List.not_mem_nil⟩, fun _ h => h⟩
  | cons s rest ih =>
      have hlaw := lawful_mergeClasses t.size
      have hs := hks s List.mem_cons_self
      rcases Shape.joinWith_continues hlaw ht acc.shape s.shape hk hs with ⟨hc, hk'⟩
      have hsize := hc.entries_size
      have hkr : ∀ r ∈ rest, r.Known (t.joinSlots acc s).2.entries.size :=
        hsize ▸ fun r hr => hks r (List.mem_cons_of_mem s hr)
      have hkj : (t.joinSlots acc s).1.Known (t.joinSlots acc s).2.entries.size := hsize ▸ hk'
      have hrun := Shape.run_joinOps run_mergeOps t acc.shape s.shape
      have hkt' : (t.joinSlots acc s).2.Keyed := by
        have hkeyed := hkt.run ht (Shape.legal_joinOps hlaw ht acc.shape s.shape hk hs)
          (Shape.merges_joinOps hlaw.merges t acc.shape s.shape)
        rw [hrun] at hkeyed
        exact hkeyed
      -- The slots of the later joins are above the one of this join.
      have he' : Evolves (t.joinSlots acc s).2 z :=
        (hc.wellFormed.joinOnto hkj hkr).1.evolves.trans hc.wellFormed.linked he
      rcases Slot.within_joinWith hlaw ht (Nat.le_refl _) hk hs he' with ⟨hacc, hnext⟩
      rcases ih hc.wellFormed hkt' hkj hkr he with ⟨⟨hj, hrest⟩, hback⟩
      refine ⟨⟨hacc.trans hj, fun r hr => ?_⟩, fun hd hall => ?_⟩
      · rcases List.mem_cons.mp hr with rfl | hr
        · exact hnext.trans hj
        · exact hrest r hr
      · rw [joinOntoOps, discards_append, hrun] at hd
        have hall' := hback (fun d hmem => hd d (List.mem_append_right _ hmem)) hall
        exact Shape.retains_joinWith (retains_mergeClasses hz D t.size) ht hkt (Nat.le_refl _) _ _
          hk hs he' (fun d hmem => hd d (List.mem_append_left _ hmem)) hall'

/-- A table with one more class keeps those of the table before it. -/
theorem ClassTable.AllKept.of_added (h : z.AllKept D t')
    (hat : ∀ i, i ≠ t.entries.size → t'.at? i = t.at? i) : z.AllKept D t := by
  intro i c hc
  exact h i c ((hat i (Nat.ne_of_lt (lt_of_at? hc))).trans hc)

/-- A class with distinct keys may be added. -/
theorem ClassTable.Keyed.push (h : t.Keyed) (name : String) {fields : List Field}
    (hf : (fields.map Field.key).Nodup) : (t.push name fields).2.Keyed :=
  Each.push (P := fun fields => (fields.map Field.key).Nodup) h name hf

/-- What can be said of a stretch of the walk from `t` to `t'`, looking back on
    it from the table `z`. If nothing is lost from `t'` on, and nothing that was
    discarded on the way, then nothing is lost from `t` on, and `P` holds. -/
structure Recalls (z : ClassTable) (D : Set ClassId) (t : ClassTable) (ops : List Operation)
    (t' : ClassTable) (P : Prop) : Prop where
  keyed : t'.Keyed
  back : Evolves t' z → (∀ d ∈ t.discards ops, z.Kept D d.1 d.2) → z.AllKept D t' →
    z.AllKept D t ∧ P

/-- A stretch in which nothing happens. -/
theorem Recalls.refl {P : Prop} (hk : t.Keyed) (hp : P) : Recalls z D t [] t P where
  keyed := hk
  back _ _ hall := ⟨hall, hp⟩

/-- It may be said less. -/
theorem Recalls.imp {ops : List Operation} {P Q : Prop} (h : Recalls z D t ops t' P)
    (hpq : P → Q) : Recalls z D t ops t' Q where
  keyed := h.keyed
  back he hd hall := (h.back he hd hall).imp_right hpq

/-- One stretch after another. -/
theorem Recalls.append {t₁ : ClassTable} {xs ys : List Operation} {P Q : Prop}
    (h : Recalls z D t xs t₁ P) (h' : Recalls z D t₁ ys t' Q) (hx : Leads t xs t₁)
    (hy : Leads t₁ ys t') : Recalls z D t (xs ++ ys) t' (P ∧ Q) where
  keyed := h'.keyed
  back hez hd hall := by
    rw [discards_append, hx.run] at hd
    -- The last stretch is gone back over first.
    rcases h'.back hez (fun d hmem => hd d (List.mem_append_right _ hmem)) hall with ⟨hall₁, hq⟩
    have he := hy.evolves.trans hx.wellFormed.linked hez
    rcases h.back he (fun d hmem => hd d (List.mem_append_left _ hmem)) hall₁ with ⟨hall₀, hp⟩
    exact ⟨hall₀, hp, hq⟩

namespace Inference

/-- What a class is registered with is kept, be it as a new class or by one that
    was there. -/
theorem recalls_registerObject (hz : z.Linked) (ht : t.WellFormed) (hkt : t.Keyed)
    {hint : String} {fields : List Field} {s : Slot} (hk : Field.KnownAll t.entries.size fields)
    (hkeys : (fields.map Field.key).Nodup) (heq : registerObject t hint fields = (.ok s, t')) :
    Recalls z D t [.register (Identifier.typeName hint fallbackName) fields] t'
      (∃ id, s = .required (.ref id) ∧ z.Kept D id fields) := by
  rcases registerObject_eq_ok heq with ⟨id, hl, rfl, rfl⟩ | ⟨name, _, rfl, rfl⟩
  · -- The class was there, and the fields are among what was discarded.
    refine ⟨hkt, fun _ hd hall => ⟨hall, id, rfl, hd (id, fields) ?_⟩⟩
    simp only [discards, Operation.discards, hl, List.append_nil, List.mem_singleton]
  · -- The class is new, and was there at the end of the stretch, where all is kept.
    refine ⟨hkt.push name (by rwa [map_key_canonical]), fun he _ hall => ⟨?_, _, rfl, ?_⟩⟩
    · exact hall.of_added fun i hi => by rw [at?_push, if_neg hi]
    · have hnew : (t.push name (t.canonical fields)).2.at? t.entries.size =
          some ⟨t.entries.size, name, t.canonical fields⟩ := by rw [at?_push, if_pos rfl]
      refine (hall _ _ hnew).congr hz rfl ?_
      exact (((Evolves.push ht name _).trans ht.linked he).canonical_canonical hk).symm

/-- Joining the slots of the elements gives one that they are all within. -/
theorem recalls_joinElements (hz : z.Linked) (ht : t.WellFormed) (hkt : t.Keyed)
    {slots : List Slot} (hks : ∀ s ∈ slots, s.Known t.entries.size) {s : Slot}
    (heq : joinElements t slots = (.ok s, t')) :
    Recalls z D t (t.joinAllOps slots) t' (∃ item : Slot,
      s = .required (.list item.shape item.nullable) ∧ ∀ r ∈ slots, z.SlotWithin r item) := by
  -- A join keeps the keys of every class distinct.
  have hkeyed : (joinElements t slots).2.Keyed := by
    rw [← run_joinElements]
    exact hkt.run ht (ht.joinAll hks).2.2 (merges_joinAllOps t slots)
  rw [heq] at hkeyed
  refine ⟨hkeyed, fun he hd hall => ?_⟩
  cases slots with
  | nil =>
      cases heq
      exact ⟨hall, ⟨.null, false⟩, rfl, fun r hr => absurd hr List.not_mem_nil⟩
  | cons acc rest =>
      simp only [joinElements, ClassTable.joinAll] at heq
      cases heq
      rcases retains_joinOnto (D := D) hz ht hkt (hks acc List.mem_cons_self)
        (fun r hr => hks r (List.mem_cons_of_mem acc hr)) he with ⟨⟨hacc, hrest⟩, hback⟩
      refine ⟨hback hd hall, _, rfl, fun r hr => ?_⟩
      rcases List.mem_cons.mp hr with rfl | hr
      · exact hacc
      · exact hrest r hr

/-- What looking back says about the members of an object and the fields made of
    them. -/
def SoundMembers (z : ClassTable) (D : Set ClassId) (members : List (String × Marked))
    (fields : List Field) : Prop :=
  (∀ f ∈ fields, ∃ v, (f.key, v) ∈ members) ∧
    ∀ m ∈ members, ∃ f ∈ fields, f.key = m.1 ∧ Sound z D m.2 f.slot

/-- An object is sound if its members are, and if the class it is registered with keeps
    its fields. -/
theorem SoundMembers.object (hkz : z.Keyed) {members : List (String × Marked)}
    {fields : List Field} (h : SoundMembers z D members fields)
    (hkeys : (fields.map Field.key).Nodup) {id : ClassId}
    (hkept : z.Kept D id (Field.withNames fields)) :
    Sound z D (.object id members) (.required (.ref id)) := by
  refine ⟨.object rfl rfl, fun n hn => ?_⟩
  rw [Marked.nodes] at hn
  rcases List.mem_cons.mp hn with rfl | hn
  · refine describes_of_kept hkz hkeys (hkept.of_covers (covers_withNames z fields)) h.1
      fun m hm => ?_
    rcases h.2 m hm with ⟨f, hf, hkey, hsound⟩
    exact ⟨f, hf, hkey, hsound.1⟩
  · rcases Marked.mem_nodesOfMembers.mp hn with ⟨m, hm, hn⟩
    rcases h.2 m hm with ⟨f, hf, hkey, hsound⟩
    exact hsound.2 n hn

/-- An array is sound in a list of any slot in which its elements are. -/
theorem sound_array {items : List Marked} {item : Slot} (h : ∀ v ∈ items, Sound z D v item) :
    Sound z D (.array items) (.required (.list item.shape item.nullable)) := by
  refine ⟨.array rfl fun v hv => (h v hv).1, fun n hn => ?_⟩
  rw [Marked.nodes] at hn
  rcases Marked.mem_nodesOfItems.mp hn with ⟨v, hv, hn⟩
  exact (h v hv).2 n hn

/-- A value without objects only has to fit. -/
theorem sound_leaf {v : Marked} {s : Slot} (hn : v.nodes = []) (h : Fits z v s) : Sound z D v s :=
  ⟨h, fun _ hmem => absurd (hn ▸ hmem) List.not_mem_nil⟩

/-- A number fits the slot that is made of it. -/
theorem fits_number (n : Json.Number) :
    Fits z (.number n) (.required (.primitive (numberShape n))) := by
  unfold numberShape
  split
  · rename_i hn
    exact .int rfl hn
  · exact .double n rfl

/-- Field names do not matter for the keys. -/
theorem nodup_keys_withNames {o : Options} {depth : Nat} {path : List Step}
    {members : List (String × Json)} {fields : List Field}
    (heq : observeMembers o t depth path members = (.ok fields, t'))
    (hv : (members.map Prod.fst).Nodup) :
    (fields.map Field.key).Nodup ∧ ((Field.withNames fields).map Field.key).Nodup := by
  have hkeys : (fields.map Field.key).Nodup := by rwa [keys_observeMembers heq]
  exact ⟨hkeys, by rwa [Field.map_withNames Field.key fun _ _ => rfl]⟩

mutual

/-- Nothing that the walk sees of a value is lost but by what is discarded. -/
theorem recalls_observe {o : Options} (hm : o.mergeArrays = true) (hz : z.Linked)
    (hkz : z.Keyed) {t t' : ClassTable} (ht : t.WellFormed) (hkt : t.Keyed) (hint : String)
    (depth : Nat) (path : List Step) (v : Json) (hv : v.Distinct) {s : Slot}
    (heq : observe o t hint depth path v = (.ok s, t')) :
    Recalls z D t (observeOps o t hint depth path v) t'
      (Sound z D (mark o t hint depth path v) s) := by
  have hd := le_maxDepth_of_observe_eq_ok heq
  -- A value without parts asks for nothing, and fits its own slot.
  cases v with
  | null =>
      rw [observe.eq_def, if_neg hd] at heq
      rw [observeOps.eq_def, if_neg hd, mark.eq_def]
      cases heq
      exact .refl hkt (sound_leaf (by rw [Marked.nodes.eq_def]) (.null rfl))
  | bool b =>
      rw [observe.eq_def, if_neg hd] at heq
      rw [observeOps.eq_def, if_neg hd, mark.eq_def]
      cases heq
      exact .refl hkt (sound_leaf (by rw [Marked.nodes.eq_def]) (.bool b rfl))
  | number n =>
      rw [observe.eq_def, if_neg hd] at heq
      rw [observeOps.eq_def, if_neg hd, mark.eq_def]
      cases heq
      exact .refl hkt (sound_leaf (by rw [Marked.nodes.eq_def]) (fits_number n))
  | string x =>
      rw [observe.eq_def, if_neg hd] at heq
      rw [observeOps.eq_def, if_neg hd, mark.eq_def]
      cases heq
      exact .refl hkt (sound_leaf (by rw [Marked.nodes.eq_def]) (.string x rfl))
  | array items =>
      rcases observe_array_eq_ok heq with ⟨slots, t₁, hitems, hjoin, hops⟩
      rw [Json.Distinct] at hv
      rw [hops, mark.eq_def]
      rcases leads_observeItems ht hitems with ⟨hl, hk⟩
      have hfirst := recalls_observeItems hm hz hkz ht hkt hint (depth + 1) path 0 items hv hitems
      have hlast := recalls_joinElements (D := D) hz hl.wellFormed hfirst.keyed hk hjoin
      refine (hfirst.append hlast hl (leads_joinElements hl.wellFormed hk hjoin)).imp ?_
      rintro ⟨hsound, item, rfl, hwithin⟩
      -- An element fits the slot of its own, which the joined slot is no narrower than.
      refine sound_array fun v hv => ?_
      rcases hsound v hv with ⟨slot, hslot, hsv⟩
      exact hsv.mono (hwithin slot hslot)
  | object members =>
      have hclass : classOf (observe o t hint depth path (.object members)) =
          classOf (.ok s, t') := by rw [heq]
      rcases observe_object_eq_ok heq with ⟨fields, t₁, hmembers, hreg, hops⟩
      rw [Json.Distinct] at hv
      rw [hops, mark.eq_def]
      simp only [hclass]
      rcases leads_observeMembers ht hmembers with ⟨hl, hk⟩
      rcases nodup_keys_withNames hmembers hv.1 with ⟨hkeys, hkeys'⟩
      have hfirst := recalls_observeMembers hm hz hkz ht hkt (depth + 1) path members hv.2 hmembers
      have hlast := recalls_registerObject (D := D) hz hl.wellFormed hfirst.keyed
        (knownAll_withNames hk) hkeys' hreg
      refine (hfirst.append hlast hl
        (leads_registerObject hl.wellFormed (knownAll_withNames hk) hreg)).imp ?_
      rintro ⟨hsound, id, rfl, hkept⟩
      -- The fields are kept for the number in the slot, which is the mark of the object.
      exact hsound.object hkz hkeys hkept

/-- The same of the elements of an array, each of which has a slot of its own. Without
    merging of arrays most would have none. -/
theorem recalls_observeItems {o : Options} (hm : o.mergeArrays = true) (hz : z.Linked)
    (hkz : z.Keyed) {t t' : ClassTable} (ht : t.WellFormed) (hkt : t.Keyed) (hint : String)
    (depth : Nat) (path : List Step) (i : Nat) (items : List Json) (hv : Json.DistinctItems items)
    {slots : List Slot} (heq : observeItems o t hint depth path i items = (.ok slots, t')) :
    Recalls z D t (observeItemsOps o t hint depth path i items) t'
      (∀ v ∈ markItems o t hint depth path i items, ∃ s ∈ slots, Sound z D v s) := by
  cases items with
  | nil =>
      rw [observeItems.eq_def] at heq
      rw [markItems.eq_def]
      cases heq
      exact .refl hkt fun v hv => absurd hv List.not_mem_nil
  | cons v rest =>
      rcases observeItems_cons_eq_ok (Or.inl hm) heq with
        ⟨slot, slots', t₁, rfl, hfirst, hrest, hops⟩
      rw [Json.DistinctItems] at hv
      rw [markItems.eq_def]
      simp only [hfirst]
      rw [hops]
      have hl := (leads_observe ht hfirst).1
      have hl' := (leads_observeItems hl.wellFormed hrest).1
      have hv₁ := recalls_observe hm hz hkz ht hkt hint depth (.index i :: path) v hv.1 hfirst
      have hv₂ := recalls_observeItems hm hz hkz hl.wellFormed hv₁.keyed hint depth path (i + 1)
        rest hv.2 hrest
      refine (hv₁.append hv₂ hl hl').imp ?_
      rintro ⟨hsound, hsounds⟩ w hmem
      rcases List.mem_cons.mp hmem with rfl | hmem
      · exact ⟨slot, List.mem_cons_self, hsound⟩
      · rcases hsounds w hmem with ⟨s, hs, hw⟩
        exact ⟨s, List.mem_cons_of_mem slot hs, hw⟩

/-- The same of the members of an object. -/
theorem recalls_observeMembers {o : Options} (hm : o.mergeArrays = true) (hz : z.Linked)
    (hkz : z.Keyed) {t t' : ClassTable} (ht : t.WellFormed) (hkt : t.Keyed) (depth : Nat)
    (path : List Step) (members : List (String × Json)) (hv : Json.DistinctMembers members)
    {fields : List Field} (heq : observeMembers o t depth path members = (.ok fields, t')) :
    Recalls z D t (observeMembersOps o t depth path members) t'
      (SoundMembers z D (markMembers o t depth path members) fields) := by
  cases members with
  | nil =>
      rw [observeMembers.eq_def] at heq
      rw [markMembers.eq_def]
      cases heq
      exact .refl hkt
        ⟨fun f hf => absurd hf List.not_mem_nil, fun m hm => absurd hm List.not_mem_nil⟩
  | cons member rest =>
      rcases member with ⟨key, v⟩
      rcases observeMembers_cons_eq_ok heq with ⟨slot, fields', t₁, rfl, hfirst, hrest, hops⟩
      rw [Json.DistinctMembers] at hv
      rw [markMembers.eq_def]
      simp only [hfirst]
      rw [hops]
      have hl := (leads_observe ht hfirst).1
      have hl' := (leads_observeMembers hl.wellFormed hrest).1
      -- The last table recalls the first member, and then the others from where it ended.
      have hv₁ := recalls_observe hm hz hkz ht hkt key depth (.key key :: path) v hv.1 hfirst
      have hv₂ := recalls_observeMembers hm hz hkz hl.wellFormed hv₁.keyed depth path rest hv.2
        hrest
      refine (hv₁.append hv₂ hl hl').imp ?_
      rintro ⟨hsound, hfrom, hto⟩
      -- Every field is of a member, and every member has a field, the first one and the
      -- others.
      refine ⟨fun f hf => ?_, fun m hm => ?_⟩
      · rcases List.mem_cons.mp hf with rfl | hf
        · exact ⟨_, List.mem_cons_self⟩
        · exact (hfrom f hf).imp fun w hw => List.mem_cons_of_mem _ hw
      · rcases List.mem_cons.mp hm with rfl | hm
        · exact ⟨_, List.mem_cons_self, rfl, hsound⟩
        · rcases hto m hm with ⟨f, hf, hkey, hw⟩
          exact ⟨f, List.mem_cons_of_mem _ hf, hkey, hw⟩

end

end Inference

end DartModels
