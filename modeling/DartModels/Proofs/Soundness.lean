import DartModels.Proofs.Recall

/-!
# Soundness of inference

What the classes of a document preserve of it.

One would like every document to conform to its root class, and not all do: a
merge can overwrite what a merge nested in it has put in place, and two
different field lists can be taken for one if a key looks like part of a
signature. In both cases a list is discarded that the class does not cover.
A class to which this has happened is damaged, and `Catalog.conforms_iff` says
that this is all that can go wrong. The damaged classes are exactly those that
fail to describe one of their own objects, and a document conforms if the
objects that are found in damaged classes do.

## Main definitions

* `ClassTable.damaged`, `Catalog.damaged`: The classes that lost something.

## Theorems

* `Catalog.sound`: All objects are described but those of damaged classes.
* `Catalog.conforms_iff`: When a document conforms to its root class.
* `Catalog.not_forall_conforms`: Not all documents do.
-/

namespace DartModels

open ClassTable

variable {t t' z : ClassTable} {D : Set ClassId}

/-! ### The root -/

/-- Keeping a name discards nothing. -/
theorem Recalls.reserve {name : String} {ops : List Operation} {P : Prop}
    (h : Recalls z D (t.reserveName name) ops t' P) :
    Recalls z D t (.reserve name :: ops) t' P where
  keyed := h.keyed
  back he hd hall := h.back he hd hall

/-- The fields of the root are kept, as it is a new class. -/
theorem Inference.recalls_registerPinned (hz : z.Linked) (ht : t.WellFormed) (hkt : t.Keyed)
    (name : String) {fields : List Field} (hk : Field.KnownAll t.entries.size fields)
    (hp : t.pinned = none) (hkeys : (fields.map Field.key).Nodup) :
    Recalls z D t [.pin name fields] (t.registerPinned name fields).2
      (z.Kept D (t.registerPinned name fields).1 fields) := by
  have hat := at?_push t name (t.canonical fields)
  refine ⟨hkt.push name (by rwa [map_key_canonical]), fun he _ hall => ⟨?_, ?_⟩⟩
  · exact hall.of_added fun i hi => (hat i).trans (if_neg hi)
  · refine (hall _ _ ((hat _).trans (if_pos rfl))).congr hz rfl ?_
    have hev := Evolves.registerPinned ht name fields hp
    exact ((hev.trans ht.linked he).canonical_canonical hk).symm

/-- Looking back on the whole walk: the document is sound in the slot of its root class,
    wherever one looks back from. -/
theorem Inference.recalls_observeRoot {o : Options} (hm : o.mergeArrays = true) (hz : z.Linked)
    (hkz : z.Keyed) (name : String) {v : Json} (hv : v.Distinct) {root : ClassId}
    (heq : observeRoot o .empty name v = (.ok root, t)) :
    Recalls z D .empty (observeRootOps o .empty name v) t
      (Sound z D (markRoot o .empty name v) (.required (.ref root))) := by
  rcases observeRoot_eq_ok heq with ⟨members, fields, t₁, rfl, hmembers, hpin, hops⟩
  have hw := WellFormed.empty.rewrites_self (rewrites_reserveName .empty name)
  have hkt : (ClassTable.empty.reserveName name).Keyed :=
    fun i c hc => absurd (lt_of_at? hc) (Nat.not_lt_zero i)
  rw [markRoot_of_ok heq, hops]
  rw [Json.Distinct] at hv
  rcases leads_observeMembers hw hmembers with ⟨hl, hk⟩
  rcases nodup_keys_withNames hmembers hv.1 with ⟨hkeys, hkeys'⟩
  have hnone := pinned_observeMembers hw hmembers
  have hfirst := recalls_observeMembers (D := D) hm hz hkz hw hkt 1 [] members hv.2 hmembers
  -- The members first, then the class of the root, as in any object.
  have hlast := recalls_registerPinned (D := D) hz hl.wellFormed hfirst.keyed name
    (knownAll_withNames hk) hnone hkeys'
  have hpins := leads_registerPinned hl.wellFormed name (knownAll_withNames hk) hnone
  rw [hpin] at hlast hpins
  refine .reserve ((hfirst.append hlast hl hpins).imp ?_)
  rintro ⟨hsound, hkept⟩
  exact hsound.object hkz hkeys hkept

/-! ### Damage -/

/-- The classes that have lost something: fields that were set aside for them
    are not covered by the fields they ended up with. -/
def ClassTable.damaged (z : ClassTable) (ds : List (ClassId × List Field)) : Set ClassId :=
  {i | ∃ d ∈ ds, z.resolve d.1 = i ∧ ∀ c, z.find? d.1 = some c → ¬ z.Covers d.2 c.fields}

/-- Whatever was set aside is kept, or its class is damaged. -/
theorem ClassTable.kept_damaged (z : ClassTable) {ds : List (ClassId × List Field)} :
    ∀ d ∈ ds, z.Kept (z.damaged ds) d.1 d.2 := by
  intro d hd
  by_cases h : ∃ c, z.find? d.1 = some c ∧ z.Covers d.2 c.fields
  · exact Or.inr h
  · exact Or.inl ⟨d, hd, rfl, fun c hc hcov => h ⟨c, hc, hcov⟩⟩

/-- Folding discards the classes that give way, and is the last thing that happens. -/
theorem Recalls.fold (hw : t.WellFormed) (hkt : t.Keyed) :
    Recalls t.foldDuplicates D t [.fold] t.foldDuplicates True := by
  have hd := hw.descends_foldDuplicates
  have hw' := hw.leads_fold.wellFormed
  refine ⟨hkt.descends hd, fun he hdisc hall => ⟨?_, trivial⟩⟩
  refine hall.of_descends hw'.linked hw.toValid hw'.toValid hd he fun i c hc hne => ?_
  refine hdisc (i, c.fields) ?_
  rw [discards, discards, List.append_nil]
  exact mem_lapsed hw.toValid hc hne

/-- Looking back from a table, its own classes are kept. -/
theorem ClassTable.AllKept.self (z : ClassTable) (D : Set ClassId) : z.AllKept D z :=
  fun i c hc => Or.inr ⟨c, by rw [find?_eq_at?, resolve_of_at? hc, hc], Covers.refl z c.fields⟩

/-- A document fits the root class of its catalog, and its objects are described
    by the classes that stand for them, but for damaged ones. -/
theorem Catalog.sound {o : Options} (hm : o.mergeArrays = true) {name : String} {v : Json}
    (hv : v.Distinct) {catalog : Catalog} (h : Catalog.ofDocument o name v = .ok catalog) :
    catalog.table.Keyed ∧ Sound catalog.table
      (catalog.table.damaged (ClassTable.empty.discards (ops o name v)))
      (Inference.markRoot o .empty name v) (.required (.ref catalog.root)) := by
  rcases ofDocument_eq_ok h with ⟨root, t, hr, hl, hfold, rfl⟩
  have hw := hl.wellFormed
  have hlz : t.foldDuplicates.Linked := hfold.wellFormed.linked
  -- Whether keys are distinct does not depend on the table from which one looks back.
  have hkt : t.Keyed := (Inference.recalls_observeRoot (z := .empty) (D := ∅) hm
    WellFormed.empty.linked (fun i c hc => absurd (lt_of_at? hc) (Nat.not_lt_zero i)) name hv
    hr).keyed
  have hkz : t.foldDuplicates.Keyed := hkt.descends hw.descends_foldDuplicates
  have hrecalls : ∀ D, Recalls t.foldDuplicates D .empty (ops o name v) t.foldDuplicates
      (Sound t.foldDuplicates D (Inference.markRoot o .empty name v) (.required (.ref root)) ∧
        True) := fun D =>
    (Inference.recalls_observeRoot hm hlz hkz name hv hr).append (Recalls.fold hw hkt) hl hfold
  rcases (hrecalls _).back (Evolves.refl hlz) (kept_damaged _) (AllKept.self _ _) with
    ⟨_, hsound, _⟩
  refine ⟨hkz, hsound.mono ⟨id, ?_⟩⟩
  have hidem := hlz.resolve_idem root
  simp only [Slot.required, ofTable, Shape.mapIds, hidem]
  exact .ref _

/-- The classes of a catalog that have lost something by the time it is done. -/
def Catalog.damaged (catalog : Catalog) (o : Options) (name : String) (v : Json) : Set ClassId :=
  catalog.table.damaged (ClassTable.empty.discards (ops o name v))

/-- What inference preserves of a document. A class has lost something exactly
    if one of the objects it stands for is not described by it, and the document
    conforms to the root class exactly if the objects found in such classes do.
    So it conforms whenever no class has lost anything. -/
theorem Catalog.conforms_iff {o : Options} (hm : o.mergeArrays = true) (name : String) {v : Json}
    (hv : v.Distinct) {catalog : Catalog} (h : Catalog.ofDocument o name v = .ok catalog) :
    (∀ i, i ∈ catalog.damaged o name v ↔ ∃ n ∈ (Inference.markRoot o .empty name v).nodes,
        catalog.table.resolve n.id = i ∧ ¬ catalog.table.Describes n) ∧
      (Conforms catalog.table v (.required (.ref catalog.root)) ↔
        ∀ w id, Reaches catalog.table v (.required (.ref catalog.root)) w id →
          id ∈ catalog.damaged o name v → Conforms catalog.table w (.required (.ref id))) := by
  rcases sound hm hv h with ⟨hkeyed, hfits, hnodes⟩
  rcases allGrounded hm h with ⟨hw, _, hdrops⟩
  have hrun := run_ops h
  constructor
  · intro i
    constructor
    -- If the class described all of its objects, it would cover what they account for,
    -- and nothing would be lost.
    · rintro ⟨d, hd, rfl, hlost⟩
      have hatt := hdrops d hd
      rw [hrun] at hatt
      rcases hw.linked.find? hatt.lt with ⟨c, hc⟩
      by_contra hall
      refine hlost c hc (hatt.grounded.covers hkeyed hc fun n hn => ?_)
      by_contra hnot
      exact hall ⟨n, hn.1, hn.2, hnot⟩
    -- An object that is not described is in a class that lost something.
    · rintro ⟨n, hn, rfl, hnot⟩
      exact (hnodes n hn).resolve_right hnot
  · constructor
    · exact fun hc w id hr _ => hc.reaches hw.linked hkeyed hr
    · intro hreach
      have herase := Inference.erase_markRoot o .empty name v
      have hconf := hfits.conforms hw.linked hnodes (by rw [herase]; exact hreach)
      rwa [herase] at hconf

/-- A document whose second object is of one class with the first one and with
    what the first one holds. While the two are merged, the merge of the latter
    with the third object puts its own fields in place, and these are lost. -/
def Catalog.lossyDocument : Json :=
  .object [("xs", .array [
    .object [("a", .object [("v", .number (.integer 1))])],
    .object [("v", .number (.integer 1))],
    .object [("a", .object [("w", .number (.integer 1))])]])]

/-- No object in it has a key twice. -/
theorem Catalog.distinct_lossyDocument : lossyDocument.Distinct := by
  simp [lossyDocument, Json.Distinct, Json.DistinctItems, Json.DistinctMembers]

/-- The key `w` is on no field of its class, so the document does not conform. -/
theorem Catalog.lossyDocument_not_conforms : ∃ catalog,
    Catalog.ofDocument {} "Root" lossyDocument = .ok catalog ∧
      ¬ Conforms catalog.table lossyDocument (.required (.ref catalog.root)) := by
  have hrun : (match Catalog.ofDocument {} "Root" lossyDocument with
      | .ok c => decide (Conforms c.table lossyDocument (.required (.ref c.root)))
      | .error _ => true) = false := by decide +kernel
  rcases hc : Catalog.ofDocument {} "Root" lossyDocument with e | catalog
  · rw [hc] at hrun
    cases hrun
  · rw [hc] at hrun
    exact ⟨catalog, rfl, of_decide_eq_false hrun⟩

/-- Not every document conforms to the class that inference makes of it. -/
theorem Catalog.not_forall_conforms : ¬ ∀ (o : Options) (name : String) (v : Json)
    (catalog : Catalog), o.mergeArrays = true → v.Distinct →
      Catalog.ofDocument o name v = .ok catalog →
        Conforms catalog.table v (.required (.ref catalog.root)) := by
  intro h
  rcases lossyDocument_not_conforms with ⟨catalog, hc, hnot⟩
  exact hnot (h {} "Root" lossyDocument catalog rfl distinct_lossyDocument hc)

/-- In that document, some object is not described by the class that stands for
    it. -/
theorem Catalog.conforms_iff_lossyDocument : ∃ catalog,
    Catalog.ofDocument {} "Root" lossyDocument = .ok catalog ∧
      ∃ n ∈ (Inference.markRoot {} .empty "Root" lossyDocument).nodes,
        catalog.table.resolve n.id ∈ catalog.damaged {} "Root" lossyDocument ∧
          ¬ catalog.table.Describes n := by
  rcases lossyDocument_not_conforms with ⟨catalog, hc, hnot⟩
  rcases conforms_iff rfl "Root" distinct_lossyDocument hc with ⟨hdamaged, hconf⟩
  rw [hconf] at hnot
  push Not at hnot
  rcases hnot with ⟨_, i, _, hi, _⟩
  rcases (hdamaged i).mp hi with ⟨n, hn, rfl, hdesc⟩
  exact ⟨catalog, hc, n, hn, hi, hdesc⟩

end DartModels
