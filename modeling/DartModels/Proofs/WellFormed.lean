import DartModels.Proofs.Forwarding
import DartModels.Proofs.Operation

/-!
# Well-formed class tables

The invariant of the class table, and what no operation undoes.

Two strengths of the invariant are needed. Halfway through an operation a class
has given way while fields still refer to it. `Valid` holds at such a moment:
pointers end, classes stand where their numbers say, and references are to
numbers that were given out. `WellFormed` adds that references are to live
classes, and bringing the references up to date turns the one into the other,
whatever the table looked like before.

The numbers a caller holds on to were given out by earlier tables, some of them
in the middle of a merge. What makes them safe to use is not the invariant but a
relation between the earlier table and the later one: `Evolves` says that
classes which became one stay one. It is transitive, so it carries facts across
a whole run.

## Main definitions

* `Valid`, `WellFormed`: The invariant, during operations and between them.
* `Seniority`: The oldest class stays, unless another is pinned.
* `Evolves`: What no operation undoes.
* `GivesWay`: When a class may give way to another.
* `MergedInto`: One class gave way, and references are up to date again.
* `Continues`: A step that also gives out no numbers.

## Theorems

* `Valid.settle`: Updating the references restores the invariant.
* `absorb_cases`, `foldIntoTwin_cases`: What the two halves of a merge can do.
* `WellFormed.absorb`, `WellFormed.replaceFields`: Both keep a table
  well-formed.
-/

namespace DartModels

namespace ClassTable

variable {t t' t'' : ClassTable} {a b i j id source target : ClassId} {c : ClassDef}

/-- What holds of a table at every moment, also halfway through an operation. -/
structure Valid (t : ClassTable) : Prop where
  linked : t.Linked
  /-- The class of an entry has the number of the entry. -/
  id_eq : ∀ i c, t.at? i = some c → c.id = i
  /-- Fields refer to numbers that were given out. -/
  known : ∀ i c, t.at? i = some c → Field.KnownAll t.entries.size c.fields
  pinned_live : ∀ p, t.pinned = some p → ∃ c, t.at? p = some c

/-- What holds of a table between operations. -/
structure WellFormed (t : ClassTable) : Prop extends Valid t where
  /-- Fields refer to live classes. -/
  refs_live : ∀ i c, t.at? i = some c → ∀ f ∈ c.fields, ∀ id ∈ f.slot.shape.ids,
    ∃ c', t.at? id = some c'

/-- The live classes come in the order of their numbers. -/
theorem Valid.classes_sorted (h : t.Valid) : t.classes.Pairwise fun c d => c.id < d.id := by
  rw [classes_eq_filterMap, List.pairwise_filterMap]
  refine List.pairwise_lt_range.imp fun hij c hc d hd => ?_
  rw [h.id_eq _ c hc, h.id_eq _ d hd]
  exact hij

/-- A class that is found in the table is found under its own number. -/
theorem Valid.at?_id (h : t.Valid) (hc : c ∈ t.classes) : t.at? c.id = some c := by
  rcases mem_classes_iff.mp hc with ⟨i, hi⟩
  rw [h.id_eq i c hi, hi]

/-- Every class but the pinned one has stayed because it was the oldest. A
    second class to be pinned may undo this, so it is no part of `Valid`. -/
def Seniority (t : ClassTable) : Prop :=
  ∀ i < t.entries.size, t.resolve i ≤ i ∨ t.pinned = some (t.resolve i)

/-- What no operation undoes: numbers are not taken back, classes that became
    one stay one, and the pinned class stays what and where it is. -/
structure Evolves (t t' : ClassTable) : Prop where
  size_le : t.entries.size ≤ t'.entries.size
  resolve_resolve : ∀ i < t.entries.size, t'.resolve (t.resolve i) = t'.resolve i
  pinned : ∀ p, t.pinned = some p → t'.pinned = some p
  pinned_name : ∀ p, t.pinned = some p →
    (t'.at? p).map ClassDef.name = (t.at? p).map ClassDef.name

theorem Evolves.refl (h : t.Linked) : Evolves t t where
  size_le := Nat.le_refl _
  resolve_resolve _ hi := h.resolve_resolve hi
  pinned _ hp := hp
  pinned_name _ _ := rfl

/-- What no single operation undoes, no run of them undoes. -/
theorem Evolves.trans (hl : t.Linked) (h : Evolves t t') (h' : Evolves t' t'') :
    Evolves t t'' where
  size_le := Nat.le_trans h.size_le h'.size_le
  resolve_resolve i hi := by
    -- The middle table puts `i` and its class together, and the last one keeps them so.
    have hi' : i < t'.entries.size := Nat.lt_of_lt_of_le hi h.size_le
    have hr' : t.resolve i < t'.entries.size := Nat.lt_of_lt_of_le (hl.resolve_lt hi) h.size_le
    rw [← h'.resolve_resolve _ hr', h.resolve_resolve i hi, h'.resolve_resolve i hi']
  pinned p hp := h'.pinned p (h.pinned p hp)
  pinned_name p hp := by
    rw [h'.pinned_name p (h.pinned p hp), h.pinned_name p hp]

/-- Numbers of one class are of one class for ever. -/
theorem Evolves.resolve_eq (h : Evolves t t') (hl : t.Linked) (hj : j < t.entries.size)
    (he : t.resolve i = t.resolve j) : t'.resolve i = t'.resolve j := by
  -- Nothing is asked of `i`: a number that was not given out leads to itself.
  have hi := hl.lt_of_resolve_eq hj he
  rw [← h.resolve_resolve i hi, he, h.resolve_resolve j hj]

/-- Nothing has been given out yet, so there is nothing to keep. -/
theorem WellFormed.empty : ClassTable.empty.WellFormed where
  linked _ hi := absurd hi (Nat.not_lt_zero _)
  id_eq _ _ hc := absurd (lt_of_at? hc) (Nat.not_lt_zero _)
  known _ _ hc := absurd (lt_of_at? hc) (Nat.not_lt_zero _)
  pinned_live p hp := by simp only [ClassTable.empty, reduceCtorEq] at hp
  refs_live _ _ hc := absurd (lt_of_at? hc) (Nat.not_lt_zero _)

/-! ### Classes replaced where they stand -/

/-- Classes may be replaced where they stand as long as they keep their numbers and
    refer to numbers that were given out. -/
theorem Valid.rewrites {f : ClassId → ClassDef → ClassDef} (h : t.Valid) (hr : Rewrites f t t')
    (hid : ∀ i c, (f i c).id = c.id)
    (hk : ∀ i c, t.at? i = some c → Field.KnownAll t.entries.size (f i c).fields) :
    t'.Valid where
  linked := hr.linked h.linked
  id_eq i c hc := by
    rcases hr.at?_eq_some.mp hc with ⟨c', hc', rfl⟩
    rw [hid, h.id_eq i c' hc']
  known i c hc := by
    rcases hr.at?_eq_some.mp hc with ⟨c', hc', rfl⟩
    rw [hr.entries_size]
    exact hk i c' hc'
  pinned_live p hp := by
    rcases h.pinned_live p (hr.pinned ▸ hp) with ⟨c, hc⟩
    exact ⟨f p c, hr.at?_eq_some.mpr ⟨c, hc, rfl⟩⟩

theorem Seniority.rewrites {f : ClassId → ClassDef → ClassDef} (h : t.Seniority)
    (hr : Rewrites f t t') : t'.Seniority := by
  intro i hi
  rw [hr.resolve, hr.pinned]
  exact h i (hr.entries_size ▸ hi)

/-- Replacing classes where they stand undoes nothing, unless the pinned one gets
    another name. -/
theorem Evolves.rewrites {f : ClassId → ClassDef → ClassDef} (h : t.Linked)
    (hr : Rewrites f t t') (hname : ∀ p c, t.pinned = some p → (f p c).name = c.name) :
    Evolves t t' where
  size_le := Nat.le_of_eq hr.entries_size.symm
  resolve_resolve i hi := by rw [hr.resolve, hr.resolve, h.resolve_resolve hi]
  pinned p hp := hr.pinned ▸ hp
  pinned_name p hp := by
    rw [hr.at?_eq, Option.map_map]
    exact congrArg (fun g => (t.at? p).map g) (funext fun c => hname p c hp)

/-- References renamed by a table are to live classes of it. -/
theorem Linked.canonical_live (h : t.Linked) {fields : List Field}
    (hk : Field.KnownAll t.entries.size fields) :
    ∀ f ∈ t.canonical fields, ∀ id ∈ f.slot.shape.ids, ∃ c, t.at? id = some c := by
  intro f hf id hid
  rcases List.mem_map.mp hf with ⟨g, hg, rfl⟩
  rw [Field.mapIds, Slot.mapIds, Shape.ids_mapIds] at hid
  rcases List.mem_map.mp hid with ⟨k, hk', rfl⟩
  exact h.find? (hk g hg k hk')

theorem Linked.canonical_known (h : t.Linked) {fields : List Field}
    (hk : Field.KnownAll t.entries.size fields) :
    Field.KnownAll t.entries.size (t.canonical fields) := by
  intro f hf id hid
  rcases h.canonical_live hk f hf id hid with ⟨c, hc⟩
  exact lt_of_at? hc

/-- Rewriting all fields to canonical ones makes a table well-formed. -/
theorem Valid.wellFormed_of_canonical {f : ClassId → ClassDef → ClassDef} (h : t.Valid)
    (hr : Rewrites f t t') (hid : ∀ i c, (f i c).id = c.id)
    (hf : ∀ i c, (f i c).fields = t.canonical c.fields) : t'.WellFormed where
  toValid := h.rewrites hr hid fun i c hc => by
    rw [hf]
    exact h.linked.canonical_known (h.known i c hc)
  refs_live i c hc g hg id hid := by
    rcases hr.at?_eq_some.mp hc with ⟨c', hc', rfl⟩
    rw [hf] at hg
    rcases h.linked.canonical_live (h.known i c' hc') g hg id hid with ⟨d, hd⟩
    exact ⟨f id d, hr.at?_eq_some.mpr ⟨d, hd, rfl⟩⟩

/-- After any sequence of redirections one update of the references is enough. -/
theorem Valid.settle (h : t.Valid) : t.settle.WellFormed :=
  h.wellFormed_of_canonical (rewrites_settle t) (fun _ _ => rfl) fun _ _ => rfl

/-! ### A class gives way -/

/-- The class `source` may give way to `target`: both are live, and `target` is
    the one that stays. -/
structure GivesWay (t : ClassTable) (source target : ClassId) : Prop where
  source_live : ∃ c, t.at? source = some c
  target_live : ∃ c, t.at? target = some c
  not_pinned : t.pinned ≠ some source
  stays : target < source ∨ t.pinned = some target

/-- No class gives way to itself: it would have to be older than itself, or pinned and
    not pinned. -/
theorem GivesWay.ne (h : t.GivesWay source target) : source ≠ target := by
  rintro rfl
  exact h.stays.elim (Nat.lt_irrefl _) h.not_pinned

theorem isPinned_iff : t.isPinned id = true ↔ t.pinned = some id := by
  rw [isPinned, beq_iff_eq]

/-- Of two classes one may always give way to the other, and it is never the pinned one. -/
theorem orderPair_givesWay {ca cb : ClassDef} (ha : t.at? a = some ca) (hb : t.at? b = some cb)
    (hne : a ≠ b) : ∃ stays gives, t.orderPair a b = (stays, gives) ∧ t.GivesWay gives stays ∧
      (stays = a ∧ gives = b ∨ stays = b ∧ gives = a) := by
  unfold orderPair
  -- The pin is asked first and the age only if neither class is pinned. Both cannot be.
  by_cases hpb : t.pinned = some b
  · have hpa : t.pinned ≠ some a := fun h => hne (Option.some.inj (h.symm.trans hpb))
    rw [if_pos (by rw [isPinned_iff.mpr hpb]; rfl)]
    exact ⟨b, a, rfl, ⟨⟨ca, ha⟩, ⟨cb, hb⟩, hpa, Or.inr hpb⟩, Or.inr ⟨rfl, rfl⟩⟩
  · have hb' : t.isPinned b = false := by
      rw [← Bool.not_eq_true, isPinned_iff]
      exact hpb
    by_cases hpa : t.pinned = some a
    · rw [if_neg (by rw [hb', isPinned_iff.mpr hpa]; simp)]
      exact ⟨a, b, rfl, ⟨⟨cb, hb⟩, ⟨ca, ha⟩, hpb, Or.inr hpa⟩, Or.inl ⟨rfl, rfl⟩⟩
    · have ha' : t.isPinned a = false := by
        rw [← Bool.not_eq_true, isPinned_iff]
        exact hpa
      by_cases hlt : b < a
      · rw [if_pos (by rw [ha', hb']; simpa using hlt)]
        exact ⟨b, a, rfl, ⟨⟨ca, ha⟩, ⟨cb, hb⟩, hpa, Or.inl hlt⟩, Or.inr ⟨rfl, rfl⟩⟩
      · rw [if_neg (by rw [ha', hb']; simpa using hlt)]
        have hlt' : a < b := Nat.lt_of_le_of_ne (Nat.le_of_not_lt hlt) hne
        exact ⟨a, b, rfl, ⟨⟨cb, hb⟩, ⟨ca, ha⟩, hpb, Or.inl hlt'⟩, Or.inl ⟨rfl, rfl⟩⟩

theorem Valid.resolve_redirect (h : t.Valid) (hg : t.GivesWay source target)
    (hi : i < t.entries.size) : (t.redirect source target).resolve i =
      if t.resolve i = source then target else t.resolve i := by
  rcases hg.source_live with ⟨cs, hs⟩
  rcases hg.target_live with ⟨ct, ht⟩
  exact ClassTable.resolve_redirect h.linked hs ht hg.ne hi

/-- The class that gave way leaves its references behind, so the table is valid but not
    yet well-formed. -/
theorem Valid.redirect (h : t.Valid) (hg : t.GivesWay source target) :
    (t.redirect source target).Valid := by
  rcases hg.source_live with ⟨cs, hs⟩
  rcases hg.target_live with ⟨ct, ht⟩
  refine ⟨h.linked.redirect hs ht hg.ne, ?_, ?_, ?_⟩
  · intro i c hc
    exact h.id_eq i c (at?_redirect_eq_some_iff.mp hc).2
  · intro i c hc
    rw [entries_size_redirect]
    exact h.known i c (at?_redirect_eq_some_iff.mp hc).2
  · intro p hp
    rcases h.pinned_live p hp with ⟨c, hc⟩
    -- The entry of the pinned class is not the one that was lost.
    have hne : p ≠ source := fun he => hg.not_pinned (he ▸ hp)
    exact ⟨c, at?_redirect_eq_some_iff.mpr ⟨hne, hc⟩⟩

/-- Either the older class stays, and with it the order, or the pinned one
    does. -/
theorem Valid.senior_redirect (h : t.Valid) (hg : t.GivesWay source target)
    (hi : i < t.entries.size) (hs : t.resolve i ≤ i ∨ t.pinned = some (t.resolve i)) :
    (t.redirect source target).resolve i ≤ i ∨
      t.pinned = some ((t.redirect source target).resolve i) := by
  rw [h.resolve_redirect hg hi]
  by_cases hr : t.resolve i = source
  · rw [if_pos hr]
    rcases hg.stays with hlt | hpin
    · -- The class that gives way was the oldest one, as it is not pinned, and the one that
      -- stays is older still.
      rcases hs with hle | hpin'
      · exact Or.inl (Nat.le_trans (Nat.le_of_lt (hr ▸ hlt)) hle)
      · exact absurd (hr ▸ hpin') hg.not_pinned
    · exact Or.inr hpin
  · rw [if_neg hr]
    exact hs

theorem Seniority.redirect (h : t.Seniority) (hv : t.Valid) (hg : t.GivesWay source target) :
    (t.redirect source target).Seniority := by
  intro i hi
  rw [entries_size_redirect] at hi
  exact hv.senior_redirect hg hi (h i hi)

theorem Evolves.redirect (h : t.Valid) (hg : t.GivesWay source target) :
    Evolves t (t.redirect source target) where
  size_le := Nat.le_of_eq (entries_size_redirect t source target).symm
  resolve_resolve i hi := by
    rw [h.resolve_redirect hg hi, h.resolve_redirect hg (h.linked.resolve_lt hi),
      h.linked.resolve_resolve hi]
  pinned p hp := hp
  pinned_name p hp := by
    have hne : p ≠ source := fun he => hg.not_pinned (he ▸ hp)
    rw [at?_redirect, if_neg hne]

/-- The table `t'` is what `t` becomes when `source` gives way to `target` and
    the references are brought up to date. Names may have changed as well. -/
structure MergedInto (source target : ClassId) (t t' : ClassTable) : Prop where
  givesWay : t.GivesWay source target
  rewrites : ∃ f, Rewrites f (t.redirect source target) t' ∧ (∀ i c, (f i c).id = c.id) ∧
    (∀ i c, (f i c).fields = (t.redirect source target).canonical c.fields) ∧
    ∀ p c, t.pinned = some p → (f p c).name = c.name

/-- A finished merge leaves no reference to the class that gave way. -/
theorem MergedInto.wellFormed (h : MergedInto source target t t') (hv : t.Valid) :
    t'.WellFormed := by
  rcases h.rewrites with ⟨f, hr, hid, hf, _⟩
  exact (hv.redirect h.givesWay).wellFormed_of_canonical hr hid hf

theorem MergedInto.evolves (h : MergedInto source target t t') (hv : t.Valid) : Evolves t t' := by
  rcases h.rewrites with ⟨f, hr, _, _, hname⟩
  have hv' := hv.redirect h.givesWay
  exact (Evolves.redirect hv h.givesWay).trans hv.linked (Evolves.rewrites hv'.linked hr hname)

theorem MergedInto.resolve (h : MergedInto source target t t') (hv : t.Valid)
    (hi : i < t.entries.size) :
    t'.resolve i = if t.resolve i = source then target else t.resolve i := by
  rcases h.rewrites with ⟨f, hr, _, _, _⟩
  rw [hr.resolve, hv.resolve_redirect h.givesWay hi]

/-- A finished merge leaves one live class less. -/
theorem MergedInto.size (h : MergedInto source target t t') : t'.size + 1 = t.size := by
  rcases h.rewrites with ⟨f, hr, _, _, _⟩
  rcases h.givesWay.source_live with ⟨c, hc⟩
  rw [hr.size, size_redirect hc]

theorem MergedInto.entries_size (h : MergedInto source target t t') :
    t'.entries.size = t.entries.size := by
  rcases h.rewrites with ⟨f, hr, _, _, _⟩
  rw [hr.entries_size, entries_size_redirect]

theorem MergedInto.pinned (h : MergedInto source target t t') : t'.pinned = t.pinned := by
  rcases h.rewrites with ⟨f, hr, _, _, _⟩
  exact hr.pinned

theorem MergedInto.seniority (h : MergedInto source target t t') (hv : t.Valid)
    (hs : t.Seniority) : t'.Seniority := by
  rcases h.rewrites with ⟨f, hr, _, _, _⟩
  exact (hs.redirect hv h.givesWay).rewrites hr

theorem MergedInto.of_settle (hg : t.GivesWay source target) :
    MergedInto source target t (t.redirect source target).settle where
  givesWay := hg
  rewrites := ⟨_, rewrites_settle _, fun _ _ => rfl, fun _ _ => rfl, fun _ _ _ => rfl⟩

/-! ### Merging -/

/-- Two changes in place are one. -/
theorem Rewrites.trans {f g : ClassId → ClassDef → ClassDef} (h : Rewrites f t t')
    (h' : Rewrites g t' t'') : Rewrites (fun i c => g i (f i c)) t t'' where
  at?_eq i := by
    rw [h'.at?_eq, h.at?_eq, Option.map_map]
    rfl
  pointsTo_iff i j := (h'.pointsTo_iff i j).trans (h.pointsTo_iff i j)
  entries_size := h'.entries_size.trans h.entries_size
  size := h'.size.trans h.size
  pinned := h'.pinned.trans h.pinned

/-- Two numbers of one class have nothing left to merge. -/
theorem absorb_of_eq (h : t.resolve a = t.resolve b) : t.absorb a b = (t.resolve a, t) := by
  simp only [absorb, if_pos h]

/-- The first half of a merge makes one class give way to the other. The one
    that stays takes over the name of the first, unless it has it already or
    is pinned. -/
theorem absorb_cases (h : t.Valid) (ha : a < t.entries.size) (hb : b < t.entries.size)
    (hne : t.resolve a ≠ t.resolve b) : ∃ stays gives, t.GivesWay gives stays ∧
      (stays = t.resolve a ∧ gives = t.resolve b ∨ stays = t.resolve b ∧ gives = t.resolve a) ∧
      (t.absorb a b = (stays, (t.redirect gives stays).settle) ∨
        t.pinned ≠ some stays ∧ ∃ c, t.at? gives = some c ∧
          t.absorb a b = (stays, ((t.redirect gives stays).rename stays c.name).settle)) := by
  rcases h.linked.find? ha with ⟨ca, hca⟩
  rcases h.linked.find? hb with ⟨cb, hcb⟩
  rcases orderPair_givesWay hca hcb hne with ⟨stays, gives, hpair, hg, hcase⟩
  refine ⟨stays, gives, hg, hcase, ?_⟩
  simp only [absorb, if_neg hne, hpair]
  -- The name moves only if it is the first class that gives way.
  by_cases hname : (decide (gives = t.resolve a) && !t.isPinned stays) = true
  · right
    rw [if_pos hname]
    rw [Bool.and_eq_true, decide_eq_true_eq, Bool.not_eq_true', ← Bool.not_eq_true,
      isPinned_iff] at hname
    rcases hname with ⟨rfl, hpin⟩
    refine ⟨hpin, ca, hca, ?_⟩
    rw [find?_eq_at?, h.linked.resolve_resolve ha, show t.at? (t.resolve a) = some ca from hca]
    rfl
  · left
    rw [if_neg hname]

/-- The first half of a merge is a merge in its own right: even if the class that stays
    is renamed, it is the one that both numbers lead to, and its references are up to
    date. -/
theorem absorb_mergedInto (h : t.Valid) (ha : a < t.entries.size) (hb : b < t.entries.size)
    (hne : t.resolve a ≠ t.resolve b) : ∃ gives,
      MergedInto gives (t.absorb a b).1 t (t.absorb a b).2 ∧
      ((t.absorb a b).1 = t.resolve a ∧ gives = t.resolve b ∨
        (t.absorb a b).1 = t.resolve b ∧ gives = t.resolve a) := by
  rcases absorb_cases h ha hb hne with ⟨stays, gives, hg, hcase, heq | ⟨hpin, c, _, heq⟩⟩
  · rw [heq]
    exact ⟨gives, MergedInto.of_settle hg, hcase⟩
  · rw [heq]
    refine ⟨gives, ⟨hg, ?_⟩, hcase⟩
    rcases hg.target_live with ⟨cs, hs⟩
    -- The class that is renamed is the one that stays, which is not pinned here.
    have hstays : (t.redirect gives stays).resolve stays = stays :=
      resolve_of_at? (at?_redirect_eq_some_iff.mpr ⟨hg.ne.symm, hs⟩)
    have hren := rewrites_rename (t.redirect gives stays) stays c.name
    -- Renaming leaves number and fields alone, so what is left to check is the name of the
    -- pinned class.
    refine ⟨_, hren.trans (rewrites_settle _), ?_, ?_, ?_⟩
    · intro i c
      simp only [onlyAt, ClassDef.mapIds]
      split <;> rfl
    · intro i c
      simp only [onlyAt, ClassDef.mapIds, canonical, funext hren.resolve]
      split <;> rfl
    · intro p c hp
      have hne : p ≠ stays := fun he => hpin (he ▸ hp)
      simp only [onlyAt, hstays, if_neg hne, ClassDef.mapIds]

/-- Every entry of the index is the number of a live class with that
    signature. -/
def IndexSound (t : ClassTable) : Prop :=
  ∀ s id, t.index[s]? = some id → ∃ c, t.at? id = some c ∧ c.signature = s

/-- An index that is filled with classes one after the other has the first with
    each signature, unless it had one before. -/
theorem getElem?_foldl_insertIfNew (index : Std.TreeMap String ClassId) (cs : List ClassDef)
    (s : String) :
    (cs.foldl (fun index c => index.insertIfNew c.signature c.id) index)[s]? =
      index[s]?.or ((cs.find? fun c => c.signature = s).map ClassDef.id) := by
  induction cs generalizing index with
  | nil => simp only [List.foldl_nil, List.find?_nil, Option.map_none, Option.or_none]
  | cons c rest ih =>
      rw [List.foldl_cons, ih, Std.TreeMap.getElem?_insertIfNew]
      simp only [Std.LawfulEqCmp.compare_eq_iff_eq]
      by_cases hs : c.signature = s
      · subst hs
        have hfind : (c :: rest).find? (fun d => d.signature = c.signature) = some c :=
          List.find?_cons_of_pos (decide_eq_true rfl)
        rw [hfind]
        -- Either the index had an entry for this signature, which then stays, or the class
        -- is the first and gets the entry.
        by_cases hmem : c.signature ∈ index
        · have hsome : index[c.signature]?.isSome = true := by
            rwa [Std.TreeMap.isSome_getElem?_eq_contains, ← Std.TreeMap.mem_iff_contains]
          rcases Option.isSome_iff_exists.mp hsome with ⟨id, hid⟩
          rw [if_neg fun h => h.2 hmem, hid, Option.some_or, Option.some_or]
        · rw [if_pos ⟨rfl, hmem⟩, Std.TreeMap.getElem?_eq_none hmem, Option.some_or,
            Option.none_or, Option.map_some]
      · have hfind : (c :: rest).find? (fun d => d.signature = s) =
            rest.find? fun d => d.signature = s :=
          List.find?_cons_of_neg (by simpa using hs)
        rw [if_neg fun h => hs h.1, hfind]

/-- An index that is built anew has live classes only. -/
theorem Valid.indexSound_reindex (h : t.Valid) : t.reindex.IndexSound := by
  intro s id hid
  -- The index is filled anew, so what it has comes from a live class.
  rw [reindex, getElem?_foldl_insertIfNew, Std.TreeMap.getElem?_emptyc, Option.none_or] at hid
  rcases Option.map_eq_some_iff.mp hid with ⟨c, hc, rfl⟩
  rcases mem_classes_iff.mp (List.mem_of_find?_eq_some hc) with ⟨i, hi⟩
  rw [h.id_eq i c hi]
  exact ⟨c, hi, by simpa using List.find?_some hc⟩

/-- A class is either left alone or made one with another class of the same
    signature. -/
theorem foldIntoTwin_cases (hi : t.IndexSound) (hc : t.at? id = some c) :
    t.foldIntoTwin id = (id, t) ∨ ∃ twin d stays gives, t.at? twin = some d ∧
      d.signature = c.signature ∧ twin ≠ id ∧ t.GivesWay gives stays ∧
      (stays = twin ∧ gives = id ∨ stays = id ∧ gives = twin) ∧
      t.foldIntoTwin id = (stays, (t.redirect gives stays).settle) := by
  have hfind : t.find? id = some c := by rw [find?_eq_at?, resolve_of_at? hc, hc]
  simp only [foldIntoTwin, hfind]
  -- The index may name the class itself, and then there is no twin.
  cases hs : t.index[c.signature]? with
  | none => exact Or.inl rfl
  | some twin =>
      rcases hi _ _ hs with ⟨d, hd, hsig⟩
      simp only [resolve_of_at? hd]
      by_cases heq : twin = id
      · exact Or.inl (by rw [if_pos heq])
      · rw [if_neg heq]
        rcases orderPair_givesWay hd hc heq with ⟨stays, gives, hpair, hg, hcase⟩
        rw [hpair]
        exact Or.inr ⟨twin, d, stays, gives, hd, hsig, heq, hg, hcase, rfl⟩

/-- The table after the fields of a class are replaced, before it is compared
    with the others. -/
def install (t : ClassTable) (id : ClassId) (fields : List Field) : ClassTable :=
  (t.setFields (t.resolve id) (t.canonical fields)).reindex

theorem replaceFields_eq (t : ClassTable) (id : ClassId) (fields : List Field) :
    t.replaceFields id fields = (t.install id fields).foldIntoTwin (t.resolve id) := rfl

theorem Linked.rewrites_install (h : t.Linked) (hi : id < t.entries.size) (fields : List Field) :
    Rewrites (onlyAt (t.resolve id) fun c => { c with fields := t.canonical fields }) t
      (t.install id fields) := by
  have hset := rewrites_setFields t (t.resolve id) (t.canonical fields)
  rw [h.resolve_resolve hi] at hset
  exact hset.trans (rewrites_reindex _)

/-- New fields may mention any number that was given out, also one whose class has given
    way, since they are made canonical before they are installed. -/
theorem WellFormed.install (h : t.WellFormed) (hi : id < t.entries.size) {fields : List Field}
    (hk : Field.KnownAll t.entries.size fields) : (t.install id fields).WellFormed where
  toValid := by
    refine h.toValid.rewrites (h.linked.rewrites_install hi fields) ?_ ?_
    · intro i c
      simp only [onlyAt]
      split <;> rfl
    · intro i c hc
      simp only [onlyAt]
      split
      · exact h.linked.canonical_known hk
      · exact h.known i c hc
  refs_live i c hc f hf id' hid := by
    have hr := h.linked.rewrites_install hi fields
    rcases hr.at?_eq_some.mp hc with ⟨c', hc', rfl⟩
    -- The new fields refer to live classes as they are canonical, the others did before.
    have hlive : ∃ d, t.at? id' = some d := by
      simp only [onlyAt] at hf
      split at hf
      · exact h.linked.canonical_live hk f hf id' hid
      · exact h.refs_live i c' hc' f hf id' hid
    rcases hlive with ⟨d, hd⟩
    exact ⟨_, hr.at?_eq_some.mpr ⟨d, hd, rfl⟩⟩

theorem Evolves.install (h : t.Linked) (hi : id < t.entries.size) (fields : List Field) :
    Evolves t (t.install id fields) :=
  Evolves.rewrites h (h.rewrites_install hi fields) fun p c _ => by
    simp only [onlyAt]
    split <;> rfl

theorem Valid.indexSound_install (h : t.Valid) {fields : List Field}
    (hk : Field.KnownAll t.entries.size fields) : (t.install id fields).IndexSound := by
  refine Valid.indexSound_reindex ?_
  have hset := rewrites_setFields t (t.resolve id) (t.canonical fields)
  refine h.rewrites hset ?_ ?_
  · intro i c
    simp only [onlyAt]
    split <;> rfl
  · intro i c hc
    simp only [onlyAt]
    split
    · exact h.linked.canonical_known hk
    · exact h.known i c hc

/-! ### Steps of a merge -/

/-- What every step of a merge does: it keeps the table well-formed and the
    numbers as they are, and adds no class. -/
structure Continues (t t' : ClassTable) : Prop where
  wellFormed : t'.WellFormed
  evolves : Evolves t t'
  entries_size : t'.entries.size = t.entries.size
  size_le : t'.size ≤ t.size
  pinned : t'.pinned = t.pinned
  seniority : t.Seniority → t'.Seniority

theorem Continues.refl (h : t.WellFormed) : Continues t t :=
  ⟨h, Evolves.refl h.linked, rfl, Nat.le_refl _, rfl, id⟩

theorem Continues.trans (hl : t.Linked) (h : Continues t t') (h' : Continues t' t'') :
    Continues t t'' :=
  ⟨h'.wellFormed, h.evolves.trans hl h'.evolves, h'.entries_size.trans h.entries_size,
    Nat.le_trans h'.size_le h.size_le, h'.pinned.trans h.pinned,
    fun hs => h'.seniority (h.seniority hs)⟩

/-- A finished merge is a step of a greater one. -/
theorem MergedInto.continues (h : MergedInto source target t t') (hv : t.Valid) :
    Continues t t' :=
  ⟨h.wellFormed hv, h.evolves hv, h.entries_size, by rw [← h.size]; exact Nat.le_succ _, h.pinned,
    h.seniority hv⟩

/-- The first half of a merge keeps a table well-formed. -/
theorem WellFormed.absorb (h : t.WellFormed) (ha : a < t.entries.size)
    (hb : b < t.entries.size) : Continues t (t.absorb a b).2 := by
  by_cases hab : t.resolve a = t.resolve b
  · rw [absorb_of_eq hab]
    exact Continues.refl h
  · rcases absorb_mergedInto h.toValid ha hb hab with ⟨gives, hm, _⟩
    exact hm.continues h.toValid

/-- Both numbers of a merge stand for the class that stays from the start. -/
theorem WellFormed.resolve_absorb (h : t.WellFormed) (ha : a < t.entries.size)
    (hb : b < t.entries.size) :
    (t.absorb a b).2.resolve a = (t.absorb a b).1 ∧
      (t.absorb a b).2.resolve b = (t.absorb a b).1 := by
  by_cases hab : t.resolve a = t.resolve b
  · rw [absorb_of_eq hab]
    exact ⟨rfl, hab.symm⟩
  · rcases absorb_mergedInto h.toValid ha hb hab with ⟨gives, hm, hcase⟩
    rw [hm.resolve h.toValid ha, hm.resolve h.toValid hb]
    rcases hcase with ⟨hstays, rfl⟩ | ⟨hstays, rfl⟩
    · exact ⟨by rw [if_neg hab, hstays], if_pos rfl⟩
    · exact ⟨if_pos rfl, by rw [if_neg (Ne.symm hab), hstays]⟩

theorem WellFormed.continues_install (h : t.WellFormed) (hi : id < t.entries.size)
    {fields : List Field} (hk : Field.KnownAll t.entries.size fields) :
    Continues t (t.install id fields) :=
  ⟨h.install hi hk, Evolves.install h.linked hi fields,
    (h.linked.rewrites_install hi fields).entries_size,
    Nat.le_of_eq (h.linked.rewrites_install hi fields).size,
    (h.linked.rewrites_install hi fields).pinned,
    fun hs => hs.rewrites (h.linked.rewrites_install hi fields)⟩

/-- The class whose fields were replaced, before it is compared with others. -/
theorem WellFormed.at?_install (h : t.WellFormed) (hi : id < t.entries.size)
    (fields : List Field) : ∃ c, (t.install id fields).at? (t.resolve id) = some c ∧
      c.fields = t.canonical fields := by
  rcases h.linked.find? hi with ⟨c, hc⟩
  refine ⟨_, (h.linked.rewrites_install hi fields).at?_eq_some.mpr ⟨c, hc, rfl⟩, ?_⟩
  rw [onlyAt_self]

/-- So does the second half, whether or not the class with its new fields finds another
    that is equal. -/
theorem WellFormed.replaceFields (h : t.WellFormed) (hi : id < t.entries.size)
    {fields : List Field} (hk : Field.KnownAll t.entries.size fields) :
    Continues t (t.replaceFields id fields).2 := by
  have hinstall := h.continues_install hi hk
  rcases h.at?_install hi fields with ⟨c, hc, _⟩
  rw [replaceFields_eq]
  -- Either nothing equals the class as it is now, or it is made one with its twin.
  rcases foldIntoTwin_cases (h.toValid.indexSound_install hk) hc with
    heq | ⟨_, _, stays, gives, _, _, _, hg, _, heq⟩
  · rw [heq]
    exact hinstall
  · rw [heq]
    exact hinstall.trans h.linked
      ((MergedInto.of_settle hg).continues hinstall.wellFormed.toValid)

/-- The class that comes out of a replacement is the one that the number stands
    for afterwards. -/
theorem WellFormed.resolve_replaceFields (h : t.WellFormed) (hi : id < t.entries.size)
    {fields : List Field} (hk : Field.KnownAll t.entries.size fields) :
    (t.replaceFields id fields).2.resolve id = (t.replaceFields id fields).1 := by
  have hinstall := h.continues_install hi hk
  have hr : (t.install id fields).resolve id = t.resolve id :=
    (h.linked.rewrites_install hi fields).resolve id
  rcases h.at?_install hi fields with ⟨c, hc, _⟩
  rw [replaceFields_eq]
  rcases foldIntoTwin_cases (h.toValid.indexSound_install hk) hc with
    heq | ⟨twin, d, stays, gives, hd, _, hne, hg, hcase, heq⟩
  · rw [heq, hr]
  · rw [heq, (MergedInto.of_settle hg).resolve hinstall.wellFormed.toValid
      (hinstall.entries_size ▸ hi), hr]
    -- It is the class itself that gives way, or the twin does and the class stays.
    rcases hcase with ⟨_, rfl⟩ | ⟨rfl, rfl⟩
    · rw [if_pos rfl]
    · rw [if_neg hne.symm]

/-- The class that stays was there before. -/
theorem WellFormed.absorb_known (h : t.WellFormed) (ha : a < t.entries.size)
    (hb : b < t.entries.size) : (t.absorb a b).1 < t.entries.size := by
  by_cases hab : t.resolve a = t.resolve b
  · rw [absorb_of_eq hab]
    exact h.linked.resolve_lt ha
  · rcases absorb_mergedInto h.toValid ha hb hab with ⟨gives, hm, _⟩
    rcases hm.givesWay.target_live with ⟨c, hc⟩
    exact lt_of_at? hc

end ClassTable

end DartModels
