import DartModels.Proofs.Runs

/-!
# Descent

Where the classes of a table come from.

Most of what happens to a class table does not touch what the classes are: a
class gives way to another, references are renamed, a class gets another name.
After such a change every live class is one that was live before, with the same
fields up to the numbers by which they refer to classes. `Descends` says so, and
an invariant of field lists that does not depend on which number of a class is
used is kept by all of these changes at once.

Only two things bring new field lists: adding a class, and replacing the fields
of one. So what is known of the lists that a run brings in is known of all
classes at its end.

## Main definitions

* `Descends`: Every class was there before, with the same fields.
* `Each`, `Numberless`: Properties of all field lists that do not depend on
  numbers.

## Theorems

* `Descends.redirect`, `Descends.rewrites`, `Descends.trans`: Changes of this
  kind, one after the other.
* `WellFormed.descends_absorb`: Absorbing is one.
* `WellFormed.descends_foldDuplicates`: So is folding.
* `Each.run`: What is brought in decides what all field lists are like.
-/

namespace DartModels

namespace ClassTable

variable {t t' t'' : ClassTable} {a b i j id source target : ClassId} {c : ClassDef}

/-- Bringing references up to date by an earlier table first makes no difference. -/
theorem Evolves.canonical_canonical (h : Evolves t t') {fields : List Field}
    (hk : Field.KnownAll t.entries.size fields) :
    t'.canonical (t.canonical fields) = t'.canonical fields := by
  simp only [canonical, List.map_map]
  refine List.map_congr_left fun f hf => ?_
  have hshape : (f.slot.shape.mapIds t.resolve).mapIds t'.resolve =
      f.slot.shape.mapIds t'.resolve := by
    rw [Shape.mapIds_mapIds]
    exact Shape.mapIds_congr fun id hid => h.resolve_resolve id (hk f hf id hid)
  simp only [Function.comp_apply, Field.mapIds, Slot.mapIds, hshape]

/-- References are not keys. -/
theorem map_key_canonical (t : ClassTable) (fields : List Field) :
    (t.canonical fields).map Field.key = fields.map Field.key := by
  rw [canonical, List.map_map]
  rfl

/-- The classes of `t'` are classes of `t`, with the same fields up to the
    choice of numbers. -/
structure Descends (t t' : ClassTable) : Prop where
  evolves : Evolves t t'
  entries_size : t'.entries.size = t.entries.size
  at?_eq_some : ∀ i c', t'.at? i = some c' →
    ∃ c, t.at? i = some c ∧ t'.canonical c'.fields = t'.canonical c.fields

/-- Every table descends from itself. -/
theorem Descends.refl (h : t.Linked) : Descends t t :=
  ⟨Evolves.refl h, rfl, fun _ c hc => ⟨c, hc, rfl⟩⟩

/-- The fields of the last table come from the first one. Both are compared by the last
    table, which does not see what the middle one did to the references. -/
theorem Descends.trans (hv : t.Valid) (hv' : t'.Valid) (h : Descends t t')
    (h' : Descends t' t'') : Descends t t'' := by
  refine ⟨h.evolves.trans hv.linked h'.evolves, h'.entries_size.trans h.entries_size, ?_⟩
  intro i c'' hc''
  rcases h'.at?_eq_some i c'' hc'' with ⟨c', hc', heq'⟩
  rcases h.at?_eq_some i c' hc' with ⟨c, hc, heq⟩
  refine ⟨c, hc, ?_⟩
  have hk : Field.KnownAll t'.entries.size c.fields := h.entries_size ▸ hv.known i c hc
  -- The middle table may be put in between on one side and taken away on the other.
  rw [heq', ← h'.evolves.canonical_canonical (hv'.known i c' hc'), heq,
    h'.evolves.canonical_canonical hk]

/-- A change in place leaves the fields as they are or brings their references up to
    date, which is the same for every later table. -/
theorem Descends.rewrites {f : ClassId → ClassDef → ClassDef} (h : t.Valid)
    (hr : Rewrites f t t') (hname : ∀ p c, t.pinned = some p → (f p c).name = c.name)
    (hf : ∀ i c, (f i c).fields = c.fields ∨ (f i c).fields = t.canonical c.fields) :
    Descends t t' := by
  have he := Evolves.rewrites h.linked hr hname
  refine ⟨he, hr.entries_size, fun i c' hc' => ?_⟩
  rcases hr.at?_eq_some.mp hc' with ⟨c, hc, rfl⟩
  refine ⟨c, hc, ?_⟩
  rcases hf i c with heq | heq
  · rw [heq]
  · rw [heq, he.canonical_canonical (h.known i c hc)]

/-- A class that gives way leaves the fields of all others. -/
theorem Descends.redirect (h : t.Valid) (hg : t.GivesWay source target) :
    Descends t (t.redirect source target) := by
  refine ⟨Evolves.redirect h hg, entries_size_redirect t source target, fun i c hc => ?_⟩
  exact ⟨c, (at?_redirect_eq_some_iff.mp hc).2, rfl⟩

/-- Bringing all references up to date makes no fields. -/
theorem Descends.settle (h : t.Valid) : Descends t t.settle :=
  Descends.rewrites h (rewrites_settle t) (fun _ _ _ => rfl) fun _ _ => Or.inr rfl

/-- A class that gives way takes its fields with it and gives none to others. -/
theorem MergedInto.descends (h : MergedInto source target t t') (hv : t.Valid) :
    Descends t t' := by
  rcases h.rewrites with ⟨f, hr, _, hf, hname⟩
  have hv' := hv.redirect h.givesWay
  exact (Descends.redirect hv h.givesWay).trans hv hv'
    (Descends.rewrites hv' hr hname fun i c => Or.inr (hf i c))

/-- The first half of a merge makes no fields. -/
theorem WellFormed.descends_absorb (h : t.WellFormed) (ha : a < t.entries.size)
    (hb : b < t.entries.size) : Descends t (t.absorb a b).2 := by
  by_cases hab : t.resolve a = t.resolve b
  · rw [absorb_of_eq hab]
    exact Descends.refl h.linked
  · rcases absorb_mergedInto h.toValid ha hb hab with ⟨gives, hm, _⟩
    exact hm.descends h.toValid

/-- So it is for the first half of a merge that goes through its stages. -/
theorem Stages.descends {n : Nat} {a b : ClassId} {ca cb : ClassDef} {s : ClassId}
    {t₁ t₂ : ClassTable} {fields : List Field} (hs : Stages n t a b ca cb s t₁ t₂ fields)
    (h : t.WellFormed) (ha : a < t.entries.size) (hb : b < t.entries.size) : Descends t t₁ := by
  have hd := h.descends_absorb (h.linked.resolve_lt ha) (h.linked.resolve_lt hb)
  rwa [hs.absorb_eq] at hd

/-- Of a replacement, only the new fields are new. -/
theorem WellFormed.descends_replaceFields (h : t.WellFormed) (hi : id < t.entries.size)
    {fields : List Field} (hk : Field.KnownAll t.entries.size fields) :
    Descends (t.install id fields) (t.replaceFields id fields).2 := by
  have hinstall := h.continues_install hi hk
  rcases h.at?_install hi fields with ⟨c, hc, _⟩
  rw [replaceFields_eq]
  -- Without a twin there are only the new fields. A twin gives way like in any merge.
  rcases foldIntoTwin_cases (h.toValid.indexSound_install hk) hc with
    heq | ⟨_, _, stays, gives, _, _, _, hg, _, heq⟩
  · rw [heq]
    exact Descends.refl hinstall.wellFormed.linked
  · rw [heq]
    exact (MergedInto.of_settle hg).descends hinstall.wellFormed.toValid

/-- Neither do the steps of folding. -/
theorem foldable_descends (h : t.Valid) : Foldable (Descends t) where
  redirect _ _ _ hv hd hg := hd.trans h hv (Descends.redirect hv hg)
  settle _ hv hd := hd.trans h hv (Descends.settle hv)

/-- So folding makes none. -/
theorem WellFormed.descends_foldDuplicates (h : t.WellFormed) : Descends t t.foldDuplicates :=
  ((foldable_descends h.toValid).foldDuplicates h (Descends.refl h.linked)).2

/-! ### Properties of field lists -/

/-- A property of field lists that does not depend on the numbers by which they
    refer to classes. -/
def Numberless (P : List Field → Prop) : Prop :=
  ∀ f fields, P (fields.map (Field.mapIds f)) ↔ P fields

/-- The fields of every class have a property. -/
def Each (P : List Field → Prop) (t : ClassTable) : Prop :=
  ∀ i c, t.at? i = some c → P c.fields

variable {P : List Field → Prop}

/-- The empty table has no classes to check. -/
theorem each_empty (P : List Field → Prop) : Each P .empty :=
  fun i _ hc => absurd (lt_of_at? hc) (Nat.not_lt_zero i)

/-- What holds of the fields of all classes goes down to a table that descends from this
    one. -/
theorem Each.descends (h : t.Each P) (hP : Numberless P) (hd : Descends t t') : t'.Each P := by
  intro i c' hc'
  rcases hd.at?_eq_some i c' hc' with ⟨c, hc, heq⟩
  rw [← hP t'.resolve, ← canonical, heq, canonical, hP]
  exact h i c hc

/-- A class that is added has to have the property. -/
theorem Each.push (h : t.Each P) (name : String) {fields : List Field} (hf : P fields) :
    (t.push name fields).2.Each P := by
  intro i c hc
  rw [at?_push] at hc
  split at hc
  · rw [← Option.some.inj hc]
    exact hf
  · exact h i c hc

/-- The fields that are installed are the given ones up to the numbers in them, which
    the property does not see. -/
theorem Each.install (h : t.Each P) (hP : Numberless P) (hw : t.WellFormed)
    (hi : id < t.entries.size) {fields : List Field} (hf : P fields) :
    (t.install id fields).Each P := by
  intro j d hd
  rcases (hw.linked.rewrites_install hi fields).at?_eq_some.mp hd with ⟨c, hc, rfl⟩
  by_cases hj : j = t.resolve id
  · rw [hj, onlyAt_self]
    exact (hP t.resolve fields).mpr hf
  · rw [onlyAt_of_ne _ hj]
    exact h j c hc

/-- Fields that replace others have to have it, too. -/
theorem Each.replaceFields (h : t.Each P) (hP : Numberless P) (hw : t.WellFormed)
    (hi : id < t.entries.size) {fields : List Field} (hk : Field.KnownAll t.entries.size fields)
    (hf : P fields) : (t.replaceFields id fields).2.Each P :=
  (h.install hP hw hi hf).descends hP (hw.descends_replaceFields hi hk)

/-- An operation brings in the fields it is asked to, and all others were there before. -/
theorem Each.apply (h : t.Each P) (hP : Numberless P) (hw : t.WellFormed) {op : Operation}
    (hk : op.Known t.entries.size) (hop : op.Brings P) : (op.apply t).Each P := by
  cases op with
  | reserve name => exact h
  | register base fields =>
      rcases t.register_apply_cases base fields with heq | ⟨name, heq, _⟩
      · rwa [heq]
      · rw [heq]
        exact h.push name ((hP t.resolve fields).mpr hop)
  | pin name fields => exact h.push name ((hP t.resolve fields).mpr hop)
  | absorb a b => exact h.descends hP (hw.descends_absorb hk.1 hk.2)
  | replace id fields => exact h.replaceFields hP hw hk.1 hk.2 hop
  | fold => exact h.descends hP hw.descends_foldDuplicates
  -- Merges make fields that were not brought in, so none of them is asked for here.
  | _ => exact hop.elim

/-- What holds of the fields that are brought in holds of the fields of all
    classes. -/
theorem Each.run (h : t.Each P) (hP : Numberless P) (hw : t.WellFormed) {ops : List Operation}
    (hl : t.Legal ops) (hops : ∀ op ∈ ops, op.Brings P) : (t.run ops).Each P := by
  induction ops generalizing t with
  | nil => exact h
  | cons op rest ih =>
      rcases hl with ⟨hk, hp, hrest⟩
      exact ih (h.apply hP hw hk (hops op List.mem_cons_self)) (hw.apply hk hp).1 hrest
        fun o ho => hops o (List.mem_cons_of_mem op ho)

end ClassTable

end DartModels
