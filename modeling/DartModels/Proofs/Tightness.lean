import DartModels.Proofs.Discards
import DartModels.Proofs.Marks
import Mathlib.Data.Set.Defs

/-!
# Tightness

No class claims what no object has shown.

A field is there because some object of its class has the key, it may be null
because some object lacks the key or holds a null there, and its shape is no
wider than the values make it. All of this is about the existence of objects.
It survives whatever makes objects gather in fewer classes, since then every
class only gains objects. The one place where something has to be found is the
merge of two classes: a key that only one of them has becomes nullable, and an
object has to be shown that lacks it. So it must also be known of every class
that a key it does not have is missing from one of its objects. That is part of
`Grounded`, and the claim about the fields alone would not carry through.

Which of the fields a merge ends with is right does not matter here. Even a
list that is written back late is made of fields that objects of the class have
shown.

## Main definitions

* `Shape.Tight`: A shape that is no wider than values make it.
* `ClassTable.Grounded`: Fields that the objects of a class account for.
* `ClassTable.AllGrounded`: The same for every class of a table.
* `ClassTable.Drops`: Whatever a run discards was grounded as well.

## Theorems

* `Shape.Tight.join`: What is joined is tight if its sides are.
* `Field.grounded_unionWith`: United fields are grounded.
* `keepsGrounded_mergeUpTo`: Merging keeps all classes grounded.
* `tight_joinOnto`: Joining a row of slots gives a tight slot.
-/

namespace DartModels

open Marked (Node)

/-- The elements of the arrays among values. -/
def elements (vs : Set Marked) : Set Marked :=
  {v | ∃ items, .array items ∈ vs ∧ v ∈ items}

/-- Every part of a shape is there because of one of the values. -/
def Shape.Tight (t : ClassTable) : Shape → Set Marked → Prop
  | .primitive .null, _ => True
  | .primitive .bool, vs => ∃ b, .bool b ∈ vs
  | .primitive .int, vs => ∃ n, .number n ∈ vs ∧ n.isSigned64 = true
  | .primitive .double, vs => ∃ n, .number n ∈ vs ∧ n.isSigned64 = false
  | .primitive .string, vs => ∃ s, .string s ∈ vs
  | .primitive .dynamic, vs => ∃ v ∈ vs, ∃ w ∈ vs,
      v.kind ≠ .null ∧ w.kind ≠ .null ∧ v.kind ≠ w.kind
  | .list item nullable, vs => (∃ items, .array items ∈ vs) ∧
      (nullable = true → .null ∈ elements vs) ∧ item.Tight t (elements vs)
  | .ref id, vs => ∃ k members, .object k members ∈ vs ∧ t.resolve k = t.resolve id

namespace ClassTable

variable {t : ClassTable} {S : Set Node} {i : ClassId}

/-- The objects that stand for the same class as a number. -/
def nodesOf (t : ClassTable) (S : Set Node) (i : ClassId) : Set Node :=
  {n | n ∈ S ∧ t.resolve n.id = t.resolve i}

/-- The values of a key in the objects of a class. -/
def valuesAt (t : ClassTable) (S : Set Node) (i : ClassId) (key : String) : Set Marked :=
  {v | ∃ n ∈ t.nodesOf S i, (key, v) ∈ n.members}

/-- A field that the objects of a class account for. -/
structure GroundedField (t : ClassTable) (S : Set Node) (i : ClassId) (f : Field) : Prop where
  occurs : ∃ n ∈ t.nodesOf S i, ∃ v, (f.key, v) ∈ n.members
  nullable : f.slot.nullable = true →
    ∃ n ∈ t.nodesOf S i, n.Lacks f.key ∨ (f.key, .null) ∈ n.members
  tight : f.slot.shape.Tight t (t.valuesAt S i f.key)

/-- Fields that the objects of a class account for, both as to what is there
    and as to what is not. -/
structure Grounded (t : ClassTable) (S : Set Node) (i : ClassId) (fields : List Field) :
    Prop where
  node : ∃ n, n ∈ t.nodesOf S i
  field : ∀ f ∈ fields, t.GroundedField S i f
  absent : ∀ key, (∀ f ∈ fields, f.key ≠ key) → ∃ n ∈ t.nodesOf S i, n.Lacks key

/-- Every class is accounted for. -/
def AllGrounded (t : ClassTable) (S : Set Node) : Prop :=
  ∀ i c, t.at? i = some c → t.Grounded S i c.fields

end ClassTable

/-! ### Later tables -/

/-- More arrays have more elements. -/
theorem elements_mono {vs ws : Set Marked} (h : ∀ v ∈ vs, v ∈ ws) :
    ∀ v ∈ elements vs, v ∈ elements ws :=
  fun _ ⟨items, hitems, hv⟩ => ⟨items, h _ hitems, hv⟩

/-- What was tight stays so in a later table and with more values, since classes that
    are one stay one. This is used wherever a slot is put aside while the walk goes on. -/
theorem Shape.Tight.mono {t t' : ClassTable} {s : Shape} {vs ws : Set Marked}
    (hl : t.Linked) (he : ClassTable.Evolves t t') (hk : ∀ id ∈ s.ids, id < t.entries.size)
    (hsub : ∀ v ∈ vs, v ∈ ws) (h : s.Tight t vs) : s.Tight t' ws := by
  induction s generalizing vs ws with
  | primitive p =>
      cases p with
      | bool => exact h.imp fun b hb => hsub _ hb
      | int => exact h.imp fun n hn => ⟨hsub _ hn.1, hn.2⟩
      | double => exact h.imp fun n hn => ⟨hsub _ hn.1, hn.2⟩
      | string => exact h.imp fun s hs => hsub _ hs
      | null => exact trivial
      | dynamic =>
          -- The two kinds that clash are still there.
          rcases h with ⟨v, hv, w, hw, hkinds⟩
          exact ⟨v, hsub v hv, w, hsub w hw, hkinds⟩
  | list item nullable ih =>
      rcases h with ⟨⟨items, hitems⟩, hnull, htight⟩
      exact ⟨⟨items, hsub _ hitems⟩, fun hn => elements_mono hsub _ (hnull hn),
        ih hk (elements_mono hsub) htight⟩
  | ref id =>
      rcases h with ⟨k, members, hmem, hres⟩
      exact ⟨k, members, hsub _ hmem,
        he.resolve_eq hl (hk id (List.mem_singleton.mpr rfl)) hres⟩

/-- Which number of a class is used does not matter. -/
theorem Shape.tight_mapIds {t : ClassTable} {g : ClassId → ClassId} {s : Shape} {vs : Set Marked}
    (h : ∀ id ∈ s.ids, t.resolve (g id) = t.resolve id) :
    (s.mapIds g).Tight t vs ↔ s.Tight t vs := by
  induction s generalizing vs with
  | primitive p => exact Iff.rfl
  | list item nullable ih =>
      simp only [mapIds, Tight]
      rw [ih h]
  | ref id =>
      simp only [mapIds, Tight]
      rw [h id (List.mem_singleton.mpr rfl)]

namespace ClassTable

variable {t t' : ClassTable} {S : Set Node} {i j : ClassId} {fields fields' : List Field}

/-- The objects of a class stay with it. -/
theorem mem_nodesOf_mono (hl : t.Linked) (he : Evolves t t') (hi : i < t.entries.size) :
    ∀ n ∈ t.nodesOf S i, n ∈ t'.nodesOf S i :=
  fun _ ⟨hn, hres⟩ => ⟨hn, he.resolve_eq hl hi hres⟩

/-- What the objects of a class account for they account for in later tables. -/
theorem GroundedField.mono (hl : t.Linked) (he : Evolves t t') (hi : i < t.entries.size)
    {f : Field} (hk : f.slot.Known t.entries.size) (h : t.GroundedField S i f) :
    t'.GroundedField S i f where
  occurs := by
    rcases h.occurs with ⟨n, hn, hv⟩
    exact ⟨n, mem_nodesOf_mono hl he hi n hn, hv⟩
  nullable hnull := by
    rcases h.nullable hnull with ⟨n, hn, hv⟩
    exact ⟨n, mem_nodesOf_mono hl he hi n hn, hv⟩
  tight := by
    refine h.tight.mono hl he hk ?_
    rintro v ⟨n, hn, hv⟩
    exact ⟨n, mem_nodesOf_mono hl he hi n hn, hv⟩

/-- What is grounded stays so in later tables. -/
theorem Grounded.mono (hl : t.Linked) (he : Evolves t t') (hi : i < t.entries.size)
    (hk : Field.KnownAll t.entries.size fields) (h : t.Grounded S i fields) :
    t'.Grounded S i fields where
  node := h.node.imp (mem_nodesOf_mono hl he hi)
  field f hf := (h.field f hf).mono hl he hi (hk f hf)
  absent key hkey := by
    rcases h.absent key hkey with ⟨n, hn, hlacks⟩
    exact ⟨n, mem_nodesOf_mono hl he hi n hn, hlacks⟩

/-- Fields are grounded if fields with the same keys and slots are. -/
theorem Grounded.of_mem (h : t.Grounded S i fields)
    (hto : ∀ f ∈ fields, ∃ g ∈ fields', g.key = f.key)
    (hfrom : ∀ g ∈ fields', ∃ f ∈ fields, g.key = f.key ∧ g.slot.nullable = f.slot.nullable ∧
      (f.slot.shape.Tight t (t.valuesAt S i f.key) →
        g.slot.shape.Tight t (t.valuesAt S i f.key))) :
    t.Grounded S i fields' where
  node := h.node
  field g hg := by
    rcases hfrom g hg with ⟨f, hf, hkey, hnull, htight⟩
    have hfield := h.field f hf
    refine ⟨?_, ?_, ?_⟩
    · rw [hkey]
      exact hfield.occurs
    · rw [hkey, hnull]
      exact hfield.nullable
    · rw [hkey]
      exact htight hfield.tight
  absent key hkey := by
    refine h.absent key fun f hf he => ?_
    rcases hto f hf with ⟨g, hg, hgf⟩
    exact hkey g hg (hgf.trans he)

/-- It does not matter by which of its numbers a field refers to a class. -/
theorem grounded_canonical (hl : t.Linked) :
    t.Grounded S i (t.canonical fields) ↔ t.Grounded S i fields := by
  have htight : ∀ {f : Field} {vs : Set Marked},
      (f.mapIds t.resolve).slot.shape.Tight t vs ↔ f.slot.shape.Tight t vs := fun {f vs} =>
    Shape.tight_mapIds fun id _ => hl.resolve_idem id
  constructor
  · intro h
    refine h.of_mem (fun f hf => ?_) fun g hg => ?_
    · rcases List.mem_map.mp hf with ⟨g, hg, rfl⟩
      exact ⟨g, hg, rfl⟩
    · exact ⟨_, List.mem_map_of_mem hg, rfl, rfl, htight.mp⟩
  · intro h
    refine h.of_mem (fun f hf => ⟨_, List.mem_map_of_mem hf, rfl⟩) fun g hg => ?_
    rcases List.mem_map.mp hg with ⟨f, hf, rfl⟩
    exact ⟨f, hf, rfl, rfl, htight.mpr⟩

/-- Nor does it matter by which of its numbers the class itself is given. -/
theorem Grounded.congr_resolve (h : t.Grounded S i fields) (he : t.resolve j = t.resolve i) :
    t.Grounded S j fields := by
  have hnodes : t.nodesOf S j = t.nodesOf S i := by
    unfold nodesOf
    rw [he]
  have hvalues : t.valuesAt S j = t.valuesAt S i := by
    funext key
    unfold valuesAt
    rw [hnodes]
  refine ⟨hnodes ▸ h.node, fun f hf => ?_, hnodes ▸ h.absent⟩
  have hf' := h.field f hf
  exact ⟨hnodes ▸ hf'.occurs, hnodes ▸ hf'.nullable, hvalues ▸ hf'.tight⟩

/-- Changes that bring no new fields keep the classes grounded. -/
theorem AllGrounded.descends (h : t.AllGrounded S) (hv : t.Valid) (hv' : t'.Valid)
    (hd : Descends t t') : t'.AllGrounded S := by
  intro i c' hc'
  rcases hd.at?_eq_some i c' hc' with ⟨c, hc, heq⟩
  have hg := (h i c hc).mono hv.linked hd.evolves (lt_of_at? hc) (hv.known i c hc)
  rw [← grounded_canonical hv'.linked, heq, grounded_canonical hv'.linked]
  exact hg

/-- The class that gets new fields has them by assumption, and the others have what they
    had. -/
theorem AllGrounded.install (h : t.AllGrounded S) (hw : t.WellFormed)
    (hi : i < t.entries.size) (hk : Field.KnownAll t.entries.size fields)
    (hf : t.Grounded S i fields) : (t.install i fields).AllGrounded S := by
  have hc := hw.continues_install hi hk
  intro j d hd
  have hr := hw.linked.rewrites_install hi fields
  rcases hr.at?_eq_some.mp hd with ⟨c, hat, rfl⟩
  -- The one class with other fields is that of the number `i`.
  by_cases hj : j = t.resolve i
  · subst hj
    rw [onlyAt_self]
    refine Grounded.congr_resolve ?_ (hc.evolves.resolve_resolve i hi)
    exact ((grounded_canonical hw.linked).mpr hf).mono hw.linked hc.evolves hi
      (hw.linked.canonical_known hk)
  · rw [onlyAt_of_ne _ hj]
    exact (h j c hat).mono hw.linked hc.evolves (lt_of_at? hat) (hw.known j c hat)

/-- A class may get fields that are grounded. -/
theorem AllGrounded.replaceFields (h : t.AllGrounded S) (hw : t.WellFormed)
    (hi : i < t.entries.size) (hk : Field.KnownAll t.entries.size fields)
    (hf : t.Grounded S i fields) : (t.replaceFields i fields).2.AllGrounded S :=
  (h.install hw hi hk hf).descends (hw.continues_install hi hk).wellFormed.toValid
    (hw.replaceFields hi hk).wellFormed.toValid (hw.descends_replaceFields hi hk)

/-! ### What is discarded -/

/-- A field list that was set aside for a number, and that the objects of its
    class account for. -/
structure Attested (t : ClassTable) (S : Set Node) (d : ClassId × List Field) : Prop where
  lt : d.1 < t.entries.size
  known : Field.KnownAll t.entries.size d.2
  grounded : t.Grounded S d.1 d.2

/-- It was put aside for good reason, and remains so. -/
theorem Attested.mono {d : ClassId × List Field} (h : t.Attested S d) (hl : t.Linked)
    (he : Evolves t t') : t'.Attested S d where
  lt := Nat.lt_of_lt_of_le h.lt he.size_le
  known f hf id hid := Nat.lt_of_lt_of_le (h.known f hf id hid) he.size_le
  grounded := h.grounded.mono hl he h.lt h.known

/-- Whatever a sequence of operations discards was accounted for. -/
def Drops (t : ClassTable) (S : Set Node) (ops : List Operation) : Prop :=
  ∀ d ∈ t.discards ops, (t.run ops).Attested S d

/-- Doing nothing discards nothing. -/
theorem drops_nil (t : ClassTable) (S : Set Node) : t.Drops S [] :=
  fun _ hd => absurd hd List.not_mem_nil

/-- What was discarded on the way to a table is accounted for in all that come after. -/
theorem Drops.append {xs ys : List Operation} {t'' : ClassTable} (h : t.Drops S xs)
    (h' : t'.Drops S ys) (hx : Leads t xs t') (hy : Leads t' ys t'') : t.Drops S (xs ++ ys) := by
  intro d hd
  rw [discards_append, hx.run] at hd
  rw [run_append, hx.run, hy.run]
  rcases List.mem_append.mp hd with hd | hd
  · exact (hx.run ▸ h d hd).mono hx.wellFormed.linked hy.evolves
  · exact hy.run ▸ h' d hd

/-- Keeping a name discards nothing. -/
theorem Drops.reserve {name : String} {ops : List Operation}
    (h : (t.reserveName name).Drops S ops) : t.Drops S (.reserve name :: ops) := h

/-- Neither does pinning a class. -/
theorem drops_pin (t : ClassTable) (S : Set Node) (name : String) (fields : List Field) :
    t.Drops S [.pin name fields] :=
  fun _ hd => absurd hd List.not_mem_nil

/-- Giving way discards nothing. -/
theorem Drops.absorb {ops : List Operation} (h : (t.absorb i j).2.Drops S ops) :
    t.Drops S (.absorb i j :: ops) := h

/-- The fields of a live class are accounted for, should they be set aside. -/
theorem AllGrounded.attested (h : t.AllGrounded S) (hv : t.Valid) {c : ClassDef}
    (hc : t.at? i = some c) : t.Attested S (c.id, c.fields) := by
  rw [hv.id_eq i c hc]
  exact ⟨lt_of_at? hc, hv.known i c hc, h i c hc⟩

/-- So are those of the classes that are not live any more in another table. -/
theorem AllGrounded.attested_lapsed (h : t.AllGrounded S) (hv : t.Valid) (t' : ClassTable) :
    ∀ d ∈ lapsed t t', t.Attested S d := by
  intro d hd
  rcases List.mem_map.mp hd with ⟨c, hc, rfl⟩
  rcases mem_classes_iff.mp (List.mem_filter.mp hc).1 with ⟨i, hi⟩
  exact h.attested hv hi

/-- Folding discards the fields of classes that give way. -/
theorem AllGrounded.drops_fold (h : t.AllGrounded S) (hw : t.WellFormed) :
    t.Drops S [.fold] := by
  intro d hd
  rw [discards, discards, List.append_nil] at hd
  exact (h.attested_lapsed hw.toValid _ d hd).mono hw.linked hw.descends_foldDuplicates.evolves

/-- Replacing discards the fields that the class had, and those of its twin. -/
theorem AllGrounded.drops_replace (h : t.AllGrounded S) (hw : t.WellFormed)
    (hi : i < t.entries.size) (hk : Field.KnownAll t.entries.size fields)
    (hf : t.Grounded S i fields) : t.Drops S [.replace i fields] := by
  intro d hd
  have hinstall := (hw.continues_install hi hk).wellFormed
  rw [discards, discards, List.append_nil] at hd
  rcases List.mem_append.mp hd with hd | hd
  · rcases List.mem_map.mp hd with ⟨c, hc, rfl⟩
    rw [Option.mem_toList] at hc
    exact (h.attested hw.toValid hc).mono hw.linked (hw.replaceFields hi hk).evolves
  · exact ((h.install hw hi hk hf).attested_lapsed hinstall.toValid _ d hd).mono hinstall.linked
      (hw.descends_replaceFields hi hk).evolves

end ClassTable

/-! ### Joining -/

section Merging

open ClassTable

variable {n : Nat} {ops : MergeJournal} {merge : ClassMerge} {t : ClassTable} {S : Set Node}

/-- A tight shape that has a kind has a value of that kind. -/
theorem Shape.Tight.exists_kind {s : Shape} {vs : Set Marked} (h : s.Tight t vs)
    (hnull : s ≠ null) (hdyn : s ≠ dynamic) : ∃ v ∈ vs, s.kind = some v.kind := by
  cases s with
  | primitive p =>
      cases p with
      | bool => exact h.elim fun b hb => ⟨_, hb, rfl⟩
      | int => exact h.elim fun n hn => ⟨_, hn.1, rfl⟩
      | double => exact h.elim fun n hn => ⟨_, hn.1, rfl⟩
      | string => exact h.elim fun s hs => ⟨_, hs, rfl⟩
      | null => exact absurd rfl hnull
      | dynamic => exact absurd rfl hdyn
  | list item nullable => exact h.1.elim fun items hitems => ⟨_, hitems, rfl⟩
  | ref id =>
      rcases h with ⟨k, members, hmem, _⟩
      exact ⟨_, hmem, rfl⟩

/-- The shape of null has no kind, so that it clashes with nothing. -/
theorem Shape.kind_ne_null (s : Shape) : s.kind ≠ some .null := by
  cases s with
  | primitive p => cases p <;> simp [kind]
  | list item nullable => simp [kind]
  | ref id => simp [kind]

/-- Values of shapes that clash are of different kinds. -/
theorem Shape.Clash.tight {x y : Shape} {vs : Set Marked} (h : Clash x y) (hx : x.Tight t vs)
    (hy : y.Tight t vs) : dynamic.Tight t vs := by
  rcases h with ⟨hxn, hyn, hclash⟩
  by_cases hxd : x = dynamic
  · exact hxd ▸ hx
  by_cases hyd : y = dynamic
  · exact hyd ▸ hy
  -- Each side has a value of its own kind, and the kinds differ.
  rcases hx.exists_kind hxn hxd with ⟨v, hv, hvk⟩
  rcases hy.exists_kind hyn hyd with ⟨w, hw, hwk⟩
  have hne : x.kind ≠ y.kind := hclash.elim (absurd · hxd) fun h => h.elim (absurd · hyd) id
  refine ⟨v, hv, w, hw, fun hnull => ?_, fun hnull => ?_, fun heq => ?_⟩
  · exact x.kind_ne_null (hnull ▸ hvk)
  · exact y.kind_ne_null (hnull ▸ hwk)
  · exact hne (by rw [hvk, hwk, heq])

/-- What is joined is tight if its sides are. -/
theorem Shape.Tight.join (h : Lawful n ops merge) (ht : t.WellFormed) (hn : t.size ≤ n)
    {x y : Shape} {vs : Set Marked} (hkx : ∀ id ∈ x.ids, id < t.entries.size)
    (hky : ∀ id ∈ y.ids, id < t.entries.size) (hx : x.Tight t vs) (hy : y.Tight t vs) :
    (x.joinWith merge t y).1.Tight (x.joinWith merge t y).2 vs := by
  refine joinWith_induction
    (P := fun x y r => ∀ vs, (∀ id ∈ x.ids, id < t.entries.size) →
      (∀ id ∈ y.ids, id < t.entries.size) → x.Tight t vs → y.Tight t vs → r.1.Tight r.2 vs)
    (fun _ _ _ _ _ hy => hy) (fun _ _ _ _ hx _ => hx) (fun _ _ _ _ hy => hy)
    (fun _ _ _ hx _ => hx) (fun _ _ _ _ hx _ => hx) ?_ ?_ ?_ x y vs hkx hky hx hy
  · -- Two lists: the elements of either side are among those of the values.
    intro x n y m ih vs hkx hky hx hy
    refine ⟨hx.1, fun hnull => ?_, ih _ hkx hky hx.2.2 hy.2.2⟩
    exact (Bool.or_eq_true _ _ ▸ hnull).elim hx.2.1 hy.2.1
  · intro a b vs hka hkb ha _
    have ha' := hka a (List.mem_singleton.mpr rfl)
    have hb' := hkb b (List.mem_singleton.mpr rfl)
    rcases ha with ⟨k, members, hmem, hres⟩
    refine ⟨k, members, hmem, ?_⟩
    -- The object of the left class is one of the merged class.
    rw [← (h.resolve_eq t a b ht ha' hb' hn).1]
    exact (h.continues t a b ht ha' hb').evolves.resolve_eq ht.linked ha' hres
  · intro x y hclash vs _ _ hx hy
    -- Where the sides clash, each has a value that the other does not describe.
    exact hclash.tight hx hy

/-- Merging classes keeps every class accounted for, and discards nothing that
    was not. -/
def KeepsGrounded (n : Nat) (S : Set Node) (ops : MergeJournal) (merge : ClassMerge) : Prop :=
  ∀ (t : ClassTable) (a b : ClassId), t.WellFormed → a < t.entries.size → b < t.entries.size →
    t.size ≤ n → t.AllGrounded S → (merge t a b).2.AllGrounded S ∧ t.Drops S (ops t a b)

/-- Joining shapes changes the table where two classes meet, and only there. -/
theorem Shape.allGrounded_joinWith (hm : KeepsGrounded n S ops merge) (ht : t.WellFormed)
    (hn : t.size ≤ n) (hall : t.AllGrounded S) {x y : Shape}
    (hkx : ∀ id ∈ x.ids, id < t.entries.size) (hky : ∀ id ∈ y.ids, id < t.entries.size) :
    (x.joinWith merge t y).2.AllGrounded S ∧ t.Drops S (x.joinOps ops t y) := by
  have hnil := drops_nil t S
  refine joinWith_induction
    (P := fun x y r => (∀ id ∈ x.ids, id < t.entries.size) →
      (∀ id ∈ y.ids, id < t.entries.size) →
        r.2.AllGrounded S ∧ t.Drops S (x.joinOps ops t y))
    (fun y _ _ => ⟨hall, ?_⟩) (fun x _ _ => ⟨hall, ?_⟩) (fun _ _ => ⟨hall, hnil⟩)
    (fun _ _ => ⟨hall, hnil⟩) (fun _ _ _ => ⟨hall, hnil⟩) (fun _ _ _ _ ih => ih)
    (fun a b hka hkb => hm t a b ht (hka a (List.mem_singleton.mpr rfl))
      (hkb b (List.mem_singleton.mpr rfl)) hn hall)
    (fun x y hclash _ _ => ⟨hall, ?_⟩) x y hkx hky
  · cases y <;> exact hnil
  · cases x <;> exact hnil
  · rw [joinOps_of_clash ops t hclash]
    exact hnil

/-- A field that only the second class has may be null, since some object has
    shown nothing there. -/
theorem ClassTable.GroundedField.optional {i : ClassId} {f : Field} (h : t.GroundedField S i f)
    (hlacks : ∃ n ∈ t.nodesOf S i, n.Lacks f.key) : t.GroundedField S i f.optional where
  occurs := h.occurs
  nullable _ := hlacks.imp fun _ hn => ⟨hn.1, Or.inl hn.2⟩
  tight := h.tight

/-- Taking in one more field of the same class. -/
theorem Field.grounded_uniteWith (h : Lawful n ops merge) (hm : KeepsGrounded n S ops merge)
    (ht : t.WellFormed) (hn : t.size ≤ n) (hall : t.AllGrounded S) {i : ClassId}
    (hi : i < t.entries.size) {fields : List Field} (hk : KnownAll t.entries.size fields)
    (hg : t.Grounded S i fields) {f : Field} (hkf : f.slot.Known t.entries.size)
    (hf : t.GroundedField S i f) :
    (uniteWith merge fields t f).2.AllGrounded S ∧
      (uniteWith merge fields t f).2.Grounded S i (uniteWith merge fields t f).1 ∧
      t.Drops S (uniteOps ops fields t f) := by
  unfold uniteWith uniteOps
  cases hfind : find? fields f.key with
  | none =>
      -- No field has the key, so some object of the class has nothing there.
      have habsent := hg.absent f.key (find?_eq_none_iff.mp hfind)
      refine ⟨hall, ⟨hg.node, fun g hmem => ?_, fun key hkey => ?_⟩, drops_nil t S⟩
      · rcases List.mem_append.mp hmem with hmem | hmem
        · exact hg.field g hmem
        · rw [List.mem_singleton.mp hmem]
          exact hf.optional habsent
      · exact hg.absent key fun g hmem => hkey g (List.mem_append_left _ hmem)
  | some g =>
      rcases mem_of_find? hfind with ⟨hgmem, hgkey⟩
      have hkg := hk g hgmem
      have hgf := hg.field g hgmem
      have hc := (Shape.joinWith_continues h ht g.slot.shape f.slot.shape hkg hkf).1
      have hmono := hg.mono ht.linked hc.evolves hi hk
      have hnew : (g.slot.joinWith merge t f.slot).2.GroundedField S i
          { g with slot := (g.slot.joinWith merge t f.slot).1 } := by
        have hgm := hgf.mono ht.linked hc.evolves hi hkg
        have hfm := hf.mono ht.linked hc.evolves hi hkf
        refine ⟨hgm.occurs, fun hnull => ?_, ?_⟩
        · rcases (Bool.or_eq_true _ _ ▸ hnull : _ ∨ _) with hnull | hnull
          · exact hgm.nullable hnull
          · rw [hgkey]
            exact hfm.nullable hnull
        -- Both slots are tight in the values of the key, of which there may be more now.
        · have hjoin := Shape.Tight.join h ht hn hkg hkf hgf.tight (hgkey ▸ hf.tight)
          have hsub : ∀ v ∈ t.valuesAt S i g.key,
              v ∈ (g.slot.joinWith merge t f.slot).2.valuesAt S i g.key :=
            fun v ⟨n, hn, hv⟩ =>
              ⟨n, mem_nodesOf_mono ht.linked hc.evolves hi n hn, hv⟩
          refine hjoin.mono hc.wellFormed.linked (Evolves.refl hc.wellFormed.linked) ?_ hsub
          rw [hc.entries_size]
          exact (Shape.joinWith_continues h ht g.slot.shape f.slot.shape hkg hkf).2
      rcases Shape.allGrounded_joinWith hm ht hn hall hkg hkf with ⟨hall', hdrops⟩
      refine ⟨hall', ⟨hmono.node, fun k hmem => ?_,
        fun key hkey => hmono.absent key fun k hmem => ?_⟩, hdrops⟩
      · rcases mem_insert hmem with rfl | hmem
        · exact hnew
        · exact hmono.field k hmem
      · rcases exists_mem_insert _ hmem with ⟨k', hk', hkey'⟩
        exact hkey' ▸ hkey k' hk'

/-- All fields of the second class, one after the other. Those that are still to come
    are accounted for in the later table too. -/
theorem Field.grounded_uniteAllWith (h : Lawful n ops merge) (hm : KeepsGrounded n S ops merge)
    (ht : t.WellFormed) (hn : t.size ≤ n) (hall : t.AllGrounded S) {i : ClassId}
    (hi : i < t.entries.size) {fields bs : List Field} (hk : KnownAll t.entries.size fields)
    (hg : t.Grounded S i fields) (hkb : KnownAll t.entries.size bs)
    (hb : ∀ f ∈ bs, t.GroundedField S i f) :
    (uniteAllWith merge fields t bs).2.AllGrounded S ∧
      (uniteAllWith merge fields t bs).2.Grounded S i (uniteAllWith merge fields t bs).1 ∧
      t.Drops S (uniteAllOps merge ops fields t bs) := by
  induction bs generalizing fields t with
  | nil => exact ⟨hall, hg, drops_nil t S⟩
  | cons f rest ih =>
      have hkf := hkb f List.mem_cons_self
      rcases grounded_uniteWith h hm ht hn hall hi hk hg hkf (hb f List.mem_cons_self) with
        ⟨hall', hg', hdrops⟩
      have hc := (uniteWith_continues h ht hk hkf).1
      rcases knownAll_uniteWith h ht hk hkb with ⟨hk', hkr⟩
      -- The fields to come are still grounded in the table that this one leads to.
      have hbr : ∀ g ∈ rest, (uniteWith merge fields t f).2.GroundedField S i g := fun g hmem =>
        (hb g (List.mem_cons_of_mem f hmem)).mono ht.linked hc.evolves hi
          (hkb g (List.mem_cons_of_mem f hmem))
      rcases ih hc.wellFormed (Nat.le_trans hc.size_le hn) hall' (hc.entries_size ▸ hi) hk' hg'
        hkr hbr with ⟨hall'', hg'', hdrops'⟩
      have hrest := (uniteAllWith_continues h hc.wellFormed hk' hkr).1
      exact ⟨hall'', hg'', hdrops.append hdrops' (hc.leads (run_uniteOps h.records fields t f))
        (hrest.leads (run_uniteAllOps h.records _ _ rest))⟩

/-- United fields are grounded if both sides are. -/
theorem Field.grounded_unionWith (h : Lawful n ops merge) (hm : KeepsGrounded n S ops merge)
    (ht : t.WellFormed) (hn : t.size ≤ n) (hall : t.AllGrounded S) {i : ClassId}
    (hi : i < t.entries.size) {as bs : List Field} (hka : KnownAll t.entries.size as)
    (hkb : KnownAll t.entries.size bs) (ha : t.Grounded S i as) (hb : t.Grounded S i bs) :
    (unionWith merge t as bs).2.AllGrounded S ∧
      (unionWith merge t as bs).2.Grounded S i (unionWith merge t as bs).1 ∧
      t.Drops S (unionOps merge ops t as bs) := by
  have hsub : ∀ f ∈ as.foldl insert [], f ∈ as := fun f hf =>
    (mem_foldl_insert hf).resolve_left List.not_mem_nil
  have hk₀ : KnownAll t.entries.size (as.foldl insert []) := fun f hf => hka f (hsub f hf)
  -- The left side is taken in as it is.
  have hg₀ : t.Grounded S i (as.foldl insert []) := by
    refine ha.of_mem (fun f hf => exists_mem_foldl_insert [] hf) fun g hg => ?_
    exact ⟨g, hsub g hg, rfl, rfl, id⟩
  rcases grounded_uniteAllWith h hm ht hn hall hi hk₀ hg₀ hkb hb.field with ⟨hall', hg', hdrops⟩
  have hc := (uniteAllWith_continues h ht hk₀ hkb).1
  have hb' := hb.mono ht.linked hc.evolves hi hkb
  refine ⟨hall', ⟨hg'.node, fun k hmem => ?_, fun key hkey =>
    hg'.absent key fun f hf he => ?_⟩, hdrops⟩
  · -- A field whose key the other side lacks is made nullable, and an object of that side
    -- shows why.
    rcases mem_withNames hmem with ⟨f, hf, hkey, hslot⟩
    rcases List.mem_map.mp hf with ⟨g, hg, rfl⟩
    -- A name is all that sets the two fields apart.
    have hfield : (uniteAllWith merge (as.foldl insert []) t bs).2.GroundedField S i
        (if (find? bs g.key).isSome then g else g.optional) := by
      cases hfind : find? bs g.key with
      | some _ => exact hg'.field g hg
      | none => exact (hg'.field g hg).optional (hb'.absent g.key (find?_eq_none_iff.mp hfind))
    refine ⟨?_, ?_, ?_⟩
    · rw [hkey]
      exact hfield.occurs
    · rw [hkey, hslot]
      exact hfield.nullable
    · rw [hkey, hslot]
      exact hfield.tight
  · have hmap : (if (find? bs f.key).isSome then f else f.optional) ∈
        (uniteAllWith merge (as.foldl insert []) t bs).1.map
          fun f => if (find? bs f.key).isSome then f else f.optional := List.mem_map_of_mem hf
    rcases exists_mem_withNames hmap with ⟨g, hg, hgkey, _⟩
    refine hkey g hg (hgkey.trans (Eq.trans ?_ he))
    split <;> rfl

/-- Merging classes keeps all classes grounded. -/
theorem ClassTable.keepsGrounded_mergeUpTo (n : Nat) (S : Set Node) :
    KeepsGrounded n S (mergeOpsUpTo n) (mergeUpTo n) := by
  induction n with
  | zero => exact fun t a b _ _ _ _ hall => ⟨hall, drops_nil t S⟩
  | succ n ih =>
      intro t a b h ha hb hn hall
      rcases mergeUpTo_cases h ha hb n with ⟨_, heq, hops⟩ | ⟨ca, cb, s, t₁, t₂, fields, hs⟩
      · rw [heq, hops]
        exact ⟨hall, drops_nil t S⟩
      · have habs := hs.absorbs h ha hb
        have hall₁ := hall.descends h.toValid habs.wellFormed.toValid (hs.descends h ha hb)
        have hs₁ : s < t₁.entries.size := habs.entries_size.symm ▸ hs.known h ha hb
        -- Both field lists belong to the class that stays from here on.
        have hside : ∀ {x c}, x < t.entries.size → t₁.resolve x = s →
            t.at? (t.resolve x) = some c → t₁.Grounded S s c.fields := by
          intro x c hx hxs hc
          refine ((hall _ c hc).mono h.linked habs.evolves (h.linked.resolve_lt hx)
            (h.known _ c hc)).congr_resolve ?_
          rw [habs.evolves.resolve_resolve x hx, ← hxs, habs.wellFormed.linked.resolve_idem]
        -- The union is grounded by the induction: classes that meet in it are merged with
        -- less fuel.
        rcases hs.knownAll h ha hb with ⟨hka, hkb⟩
        have hunion := Field.grounded_unionWith (lawful_mergeUpTo n) ih habs.wellFormed
          (hs.size_le h ha hb hn) hall₁ hs₁ hka hkb
          (hside ha (hs.resolve h ha hb).1 hs.at?_left)
          (hside hb (hs.resolve h ha hb).2 hs.at?_right)
        rw [hs.unionWith_eq] at hunion
        rcases hunion with ⟨hall₂, hfields, hdrops⟩
        rcases hs.unites (lawful_mergeUpTo n) h ha hb with ⟨hc, hs₂, hk, _⟩
        have hrep := (hs.replaces (lawful_mergeUpTo n) h ha hb).1
        rw [hs.merge_eq, hs.ops_eq]
        refine ⟨hall₂.replaceFields hc.wellFormed hs₂ hk hfields, ?_⟩
        refine Drops.absorb ?_
        rw [hs.absorb_eq]
        exact hdrops.append (hall₂.drops_replace hc.wellFormed hs₂ hk hfields)
          (hc.leads hs.run_unionOps) (hrep.leads rfl)

/-- So does merging by the code, whose bound is the number of live classes. -/
theorem ClassTable.keepsGrounded_mergeClasses (n : Nat) (S : Set Node) :
    KeepsGrounded n S mergeOps mergeClasses := fun t a b h ha hb _ hall =>
  keepsGrounded_mergeUpTo t.size S t a b h ha hb (Nat.le_refl _) hall

/-- A slot that values account for. -/
def Slot.Tight (t : ClassTable) (s : Slot) (vs : Set Marked) : Prop :=
  (s.nullable = true → .null ∈ vs) ∧ s.shape.Tight t vs

/-- Like shapes, tight slots stay tight. -/
theorem Slot.Tight.mono {t t' : ClassTable} {s : Slot} {vs ws : Set Marked} (hl : t.Linked)
    (he : Evolves t t') (hk : s.Known t.entries.size) (hsub : ∀ v ∈ vs, v ∈ ws)
    (h : s.Tight t vs) : s.Tight t' ws :=
  ⟨fun hnull => hsub _ (h.1 hnull), h.2.mono hl he hk hsub⟩

/-- Slots that the same values account for are joined to one that they account for. -/
theorem ClassTable.tight_joinOnto (ht : t.WellFormed) (hall : t.AllGrounded S) {acc : Slot}
    {slots : List Slot} {vs : Set Marked} (hk : acc.Known t.entries.size)
    (hks : ∀ s ∈ slots, s.Known t.entries.size) (hacc : acc.Tight t vs)
    (hs : ∀ s ∈ slots, s.Tight t vs) :
    (t.joinOnto acc slots).2.AllGrounded S ∧
      (t.joinOnto acc slots).1.Tight (t.joinOnto acc slots).2 vs ∧
      t.Drops S (t.joinOntoOps acc slots) := by
  induction slots generalizing t acc with
  | nil => exact ⟨hall, hacc, drops_nil t S⟩
  | cons s rest ih =>
      have hlaw := lawful_mergeClasses t.size
      have hks' := hks s List.mem_cons_self
      rcases Shape.joinWith_continues hlaw ht acc.shape s.shape hk hks' with ⟨hc, hk'⟩
      have hsize := hc.entries_size
      have hjoin := Shape.Tight.join hlaw ht (Nat.le_refl _) hk hks' hacc.2
        (hs s List.mem_cons_self).2
      rcases Shape.allGrounded_joinWith (keepsGrounded_mergeClasses t.size S) ht (Nat.le_refl _)
        hall hk hks' with ⟨hall', hdrops⟩
      have hkj : (t.joinSlots acc s).1.Known (t.joinSlots acc s).2.entries.size := hsize ▸ hk'
      have hkr : ∀ r ∈ rest, r.Known (t.joinSlots acc s).2.entries.size :=
        hsize ▸ fun r hr => hks r (List.mem_cons_of_mem s hr)
      -- The joined slot is nullable if one of the two was, and then there is a null for it.
      have hjoined : (t.joinSlots acc s).1.Tight (t.joinSlots acc s).2 vs :=
        ⟨fun hnull => (Bool.or_eq_true _ _ ▸ hnull : _ ∨ _).elim hacc.1 (hs s List.mem_cons_self).1,
          hjoin⟩
      rcases ih hc.wellFormed hall' hkj hkr hjoined fun r hr =>
        (hs r (List.mem_cons_of_mem s hr)).mono ht.linked hc.evolves
          (hks r (List.mem_cons_of_mem s hr)) fun _ hv => hv with ⟨hall'', htight, hdrops'⟩
      have hrest := (hc.wellFormed.joinOnto hkj hkr).1
      exact ⟨hall'', htight, hdrops.append hdrops'
        (hc.leads (Shape.run_joinOps run_mergeOps t acc.shape s.shape))
        (hrest.leads (run_joinOntoOps _ _ rest))⟩

end Merging

end DartModels
