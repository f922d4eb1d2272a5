import DartModels.Proofs.Congruence
import DartModels.Proofs.Index
import DartModels.Proofs.Lowered
import DartModels.Proofs.Outline
import DartModels.Proofs.Success
import Mathlib.Data.List.Dedup

/-!
# Structural sharing

Without merging, objects share a class exactly if they have the same outline.

Nothing ever gives way in a walk without merging. Classes are only added, and a
class is added when no class with its signature is there. So the table grows like
a list of records, one for each class and no two of them equal, and what a class
says is what its record says. Whether an object finds its class is decided by the
text of a signature in which the numbers of other classes occur. But in a list
without repetitions a number stands for one record and a record has one number,
and so the texts are equal if and only if the records are.

The root is added without a search. It does not repeat a record either, because
everything below it is smaller. Hence there is nothing to fold at the end, and
the classes that are written are the records of the objects that were visited,
and the root.

## Main definitions

* `ClassTable.Portrays`: The classes of a table say the same as a list of records.
* `Inference.Gathers`: What a stretch of a walk adds to the records.

## Theorems

* `ClassTable.Portrays.registerObject`: An object finds the class of its record, or
  makes one.
* `Inference.gathers_observe`: A walk adds the records of the objects it visits.
* `ClassTable.Portrays.foldDuplicates_eq`: There is nothing to fold.
* `Catalog.shared_iff_outline_eq`: Two objects share a class if and only if they
  have the same outline.
-/

namespace DartModels

open Marked (Node)

namespace ClassTable

variable {t t' : ClassTable} {K : List (List (String × Outline))} {i : ClassId} {c d : ClassDef}
  {fields : List Field} {ms : List (String × Outline)}

/-- All classes of a table are live, and they say the same as the records of a
    list in which nothing occurs twice. -/
structure Portrays (t : ClassTable) (K : List (List (String × Outline))) : Prop where
  wellFormed : t.WellFormed
  indexExact : t.IndexExact
  size_eq : t.entries.size = K.length
  nodup : K.Nodup
  separable : ∀ ms ∈ K, ∀ m ∈ ms, ';' ∉ m.1.toList
  depict : ∀ i ms, K[i]? = some ms → ∃ c, t.at? i = some c ∧ Depict K c.layout ms

/-! ### Classes and records -/

/-- Every live class depicts the record with its number. -/
theorem Portrays.at?_eq_some (h : t.Portrays K) (hc : t.at? i = some c) :
    ∃ ms, K[i]? = some ms ∧ Depict K c.layout ms := by
  have hlt : i < K.length := h.size_eq ▸ lt_of_at? hc
  have hi : K[i]? = some K[i] := List.getElem?_eq_getElem hlt
  rcases h.depict i _ hi with ⟨d, hd, hdepict⟩
  rw [hc, Option.some.injEq] at hd
  exact ⟨_, hi, hd ▸ hdepict⟩

/-- Every number that was given out is that of a live class. -/
theorem Portrays.at?_of_lt (h : t.Portrays K) (hi : i < t.entries.size) :
    ∃ c, t.at? i = some c := by
  rcases h.depict i _ (List.getElem?_eq_getElem (h.size_eq ▸ hi)) with ⟨c, hc, _⟩
  exact ⟨c, hc⟩

/-- Every number is its own. -/
theorem Portrays.resolve_eq (h : t.Portrays K) (i : ClassId) : t.resolve i = i := by
  by_cases hi : i < t.entries.size
  · rcases h.at?_of_lt hi with ⟨c, hc⟩
    exact resolve_of_at? hc
  · exact resolve_of_size_le (Nat.le_of_not_lt hi)

/-- So references need no renaming. -/
theorem Portrays.canonical_eq (h : t.Portrays K) (fields : List Field) :
    t.canonical fields = fields :=
  congrArg ClassDef.fields (ClassDef.mapIds_of_forall (c := ⟨0, "", fields⟩)
    fun _ _ i _ => h.resolve_eq i)

/-- Fields that depict a record refer to classes of the table. -/
theorem Portrays.knownAll (h : t.Portrays K) (hf : Depict K (fields.map Field.entry) ms) :
    Field.KnownAll t.entries.size fields := by
  intro f hmem
  rcases hf.exists_outline (List.mem_map_of_mem hmem) with ⟨m, _, _, hdepicts⟩
  exact h.size_eq ▸ hdepicts.known

/-- The keys of the fields are those of the record. -/
theorem separable_of_depict (hms : ∀ m ∈ ms, ';' ∉ m.1.toList)
    (hf : Depict K (fields.map Field.entry) ms) : ∀ f ∈ fields, ';' ∉ f.key.toList := by
  intro f hmem
  rcases hf.exists_outline (List.mem_map_of_mem hmem) with ⟨m, hm, hkey, _⟩
  rw [show f.key = m.1 from hkey]
  exact hms m hm

/-- The text that is compared is that of a class with the fields. -/
theorem Portrays.signature_eq_iff (h : t.Portrays K) (hms : ∀ m ∈ ms, ';' ∉ m.1.toList)
    (hf : Depict K (fields.map Field.entry) ms) (hc : t.at? i = some c) :
    c.signature = signatureOf fields ↔ K[i]? = some ms := by
  rcases h.at?_eq_some hc with ⟨ks, hks, hdepict⟩
  have hcs : c.Separable :=
    separable_of_depict (h.separable ks (List.mem_of_getElem? hks)) hdepict
  rw [signatureOf, ClassDef.signature_eq_iff hcs (separable_of_depict hms hf), hks,
    Option.some.injEq]
  constructor
  · intro hlayout
    rw [hlayout] at hdepict
    exact hdepict.outline_eq hf
  · rintro rfl
    exact hdepict.layout_eq h.nodup hf

/-- What the index finds is the class of the record. -/
theorem Portrays.lookup?_eq_some (h : t.Portrays K) (hms : ∀ m ∈ ms, ';' ∉ m.1.toList)
    (hf : Depict K (fields.map Field.entry) ms) (hl : t.lookup? fields = some i) :
    K[i]? = some ms := by
  rcases h.wellFormed.linked.lookup?_eq_some hl with ⟨c, hc, hsig⟩
  exact (h.signature_eq_iff hms hf hc).mp hsig

/-- If the index finds nothing, the record is new. -/
theorem Portrays.not_mem_of_lookup?_eq_none (h : t.Portrays K)
    (hms : ∀ m ∈ ms, ';' ∉ m.1.toList) (hf : Depict K (fields.map Field.entry) ms)
    (hl : t.lookup? fields = none) : ms ∉ K := by
  intro hmem
  rcases List.mem_iff_getElem?.mp hmem with ⟨i, hi⟩
  rcases h.depict i ms hi with ⟨c, hc, _⟩
  rw [h.indexExact.lookup?_eq_scan h.wellFormed.toValid, ← (h.signature_eq_iff hms hf hc).mpr hi]
    at hl
  rcases scan_isSome (mem_classes_iff.mpr ⟨i, hc⟩) with ⟨d, hd⟩
  rw [hd] at hl
  cases hl

/-! ### Adding a class -/

/-- A table with one class more, whose record is new. -/
theorem Portrays.added (h : t.Portrays K) (hms : ∀ m ∈ ms, ';' ∉ m.1.toList)
    (hf : Depict K (fields.map Field.entry) ms) (hnew : ms ∉ K) (hw : t'.WellFormed)
    (hx : t'.IndexExact) (hsize : t'.entries.size = t.entries.size + 1) {name : String}
    (hat : ∀ i, t'.at? i =
      if i = t.entries.size then some ⟨t.entries.size, name, fields⟩ else t.at? i) :
    t'.Portrays (K ++ [ms]) where
  wellFormed := hw
  indexExact := hx
  size_eq := by rw [hsize, h.size_eq, List.length_append, List.length_singleton]
  nodup := List.nodup_append.mpr ⟨h.nodup, List.nodup_singleton ms, fun ks hks ms' hms' he =>
    hnew (List.mem_singleton.mp hms' ▸ he ▸ hks)⟩
  separable ks hks := by
    rcases List.mem_append.mp hks with hks | hks
    · exact h.separable ks hks
    · exact List.mem_singleton.mp hks ▸ hms
  depict i ks hi := by
    rw [hat]
    -- The classes that were there keep their numbers and records, and the new one has the
    -- next.
    by_cases hlt : i < K.length
    · rw [List.getElem?_append_left hlt] at hi
      rcases h.depict i ks hi with ⟨c, hc, hdepict⟩
      rw [if_neg (Nat.ne_of_lt (lt_of_at? hc))]
      exact ⟨c, hc, hdepict.append [ms]⟩
    · rw [List.getElem?_append_right (Nat.le_of_not_lt hlt)] at hi
      rcases List.getElem?_eq_some_iff.mp hi with ⟨hone, hks⟩
      simp only [List.length_singleton] at hone
      simp only [List.getElem_singleton] at hks
      have hlast : i = K.length := Nat.le_antisymm (by omega) (Nat.le_of_not_lt hlt)
      rw [if_pos (hlast.trans h.size_eq.symm)]
      exact ⟨_, rfl, hks ▸ hf.append [ms]⟩

/-- The root is added without a search. -/
theorem Portrays.registerPinned (h : t.Portrays K) (hms : ∀ m ∈ ms, ';' ∉ m.1.toList)
    (hf : Depict K (fields.map Field.entry) ms) (hnew : ms ∉ K) (name : String) :
    (t.registerPinned name fields).2.Portrays (K ++ [ms]) :=
  h.added hms hf hnew (h.wellFormed.registerPinned name (h.knownAll hf))
    (h.indexExact.registerPinned name fields) (entries_size_push t name _) fun i =>
      (at?_push t name (t.canonical fields) i).trans (by rw [h.canonical_eq])

/-- An object is of the class of its record, which is there already or is added. -/
theorem Portrays.registerObject (h : t.Portrays K) (hms : ∀ m ∈ ms, ';' ∉ m.1.toList)
    (hf : Depict K (fields.map Field.entry) ms) {hint : String} {s : Slot}
    (hr : Inference.registerObject t hint fields = (.ok s, t')) :
    ∃ i K', s = .required (.ref i) ∧ (K ++ K')[i]? = some ms ∧ t'.Portrays (K ++ K') ∧
      ∀ ks ∈ K', ks = ms := by
  rcases Inference.registerObject_eq_ok hr with ⟨i, hl, rfl, rfl⟩ | ⟨name, hl, rfl, rfl⟩
  · rw [h.canonical_eq] at hl
    have hi := h.lookup?_eq_some hms hf hl
    exact ⟨i, [], rfl, by rwa [List.append_nil], by rwa [List.append_nil],
      fun _ hks => absurd hks List.not_mem_nil⟩
  · rw [h.canonical_eq] at hl ⊢
    have hlive : ∀ f ∈ fields, ∀ id ∈ f.slot.shape.ids, ∃ c, t.at? id = some c :=
      fun f hmem id hid => h.at?_of_lt (h.knownAll hf f hmem id hid)
    refine ⟨t.entries.size, [ms], rfl, ?_, ?_, fun ks hks => List.mem_singleton.mp hks⟩
    · rw [h.size_eq, List.getElem?_concat_length]
    · exact h.added hms hf (h.not_mem_of_lookup?_eq_none hms hf hl)
        (h.wellFormed.push name hlive) (h.indexExact.push name fields)
        (entries_size_push t name fields) (at?_push t name fields)

/-! ### Folding -/

/-- No two classes have the same signature. -/
theorem Portrays.nodup_signatures (h : t.Portrays K) :
    (t.classes.map ClassDef.signature).Nodup := by
  have hnodup : t.classes.Nodup := h.wellFormed.toValid.classes_sorted.imp
    fun {c d} hlt (he : c = d) => Nat.ne_of_lt hlt (congrArg ClassDef.id he)
  refine hnodup.map_on fun c hc d hd hsig => ?_
  rcases mem_classes_iff.mp hc with ⟨i, hi⟩
  rcases mem_classes_iff.mp hd with ⟨j, hj⟩
  rcases h.at?_eq_some hj with ⟨ms, hms, hdepict⟩
  -- The record of one class is that of the other, so they have one number.
  have hims := (h.signature_eq_iff (h.separable ms (List.mem_of_getElem? hms)) hdepict hi).mp hsig
  have hij : i = j :=
    (List.getElem?_inj (h.size_eq ▸ lt_of_at? hi) h.nodup).mp (hims.trans hms.symm)
  rw [hij, hj, Option.some.injEq] at hi
  exact hi.symm

/-- There is nothing to fold. -/
theorem Portrays.foldDuplicates_eq (h : t.Portrays K) : t.foldDuplicates = t :=
  foldDuplicates_of_duplicates_eq_nil (duplicates_empty_eq_nil_iff.mpr h.nodup_signatures)

end ClassTable

/-! ### The walk -/

namespace Inference

open ClassTable

variable {o : Options} {t t' : ClassTable} {K K' : List (List (String × Outline))}
  {nodes nodes' : List Node}

/-- What a stretch of a walk adds to the records: exactly those of the objects it
    visits, as far as they are new. -/
structure Gathers (K : List (List (String × Outline))) (nodes : List Node) (t' : ClassTable)
    (K' : List (List (String × Outline))) : Prop where
  portrays : t'.Portrays (K ++ K')
  outline_eq : ∀ n ∈ nodes, (K ++ K')[n.id]? = some n.outline
  node : ∀ ms ∈ K', ∃ n ∈ nodes, n.outline = ms

/-- A stretch without objects adds nothing. -/
theorem gathers_nil (h : t.Portrays K) : Gathers K [] t [] where
  portrays := by rwa [List.append_nil]
  outline_eq _ hn := absurd hn List.not_mem_nil
  node _ hms := absurd hms List.not_mem_nil

/-- One stretch after another. -/
theorem Gathers.append {K₁ : List (List (String × Outline))} {t₁ : ClassTable}
    (h : Gathers K nodes t₁ K₁) (h' : Gathers (K ++ K₁) nodes' t' K') :
    Gathers K (nodes ++ nodes') t' (K₁ ++ K') where
  portrays := List.append_assoc K K₁ K' ▸ h'.portrays
  outline_eq n hn := by
    rw [← List.append_assoc]
    rcases List.mem_append.mp hn with hn | hn
    · have hi := h.outline_eq n hn
      exact (List.getElem?_append_left (List.getElem?_eq_some_iff.mp hi).1).trans hi
    · exact h'.outline_eq n hn
  node ms hms := by
    rcases List.mem_append.mp hms with hms | hms
    · rcases h.node ms hms with ⟨n, hn, heq⟩
      exact ⟨n, List.mem_append_left nodes' hn, heq⟩
    · rcases h'.node ms hms with ⟨n, hn, heq⟩
      exact ⟨n, List.mem_append_right nodes hn, heq⟩

/-- The order of the objects does not matter. -/
theorem Gathers.of_mem_iff (h : Gathers K nodes t' K') (hn : ∀ n, n ∈ nodes' ↔ n ∈ nodes) :
    Gathers K nodes' t' K' where
  portrays := h.portrays
  outline_eq n hmem := h.outline_eq n ((hn n).mp hmem)
  node ms hms := (h.node ms hms).imp fun n hnode => ⟨(hn n).mpr hnode.1, hnode.2⟩

/-- Without merging, the slots of the elements of an array are that of the first. -/
theorem observeItems_first_eq_ok (hm : o.mergeArrays = false) {hint : String} {depth : Nat}
    {path : List Step} {v : Json} {rest : List Json} {slots : List Slot}
    (h : observeItems o t hint depth path 0 (v :: rest) = (.ok slots, t')) :
    ∃ slot, slots = [slot] ∧ observe o t hint depth (.index 0 :: path) v = (.ok slot, t') := by
  rw [observeItems.eq_def] at h
  simp only [ne_eq, not_true_eq_false, decide_false, Bool.false_and, Bool.false_eq_true,
    if_false] at h
  rcases hr : observe o t hint depth (.index 0 :: path) v with ⟨e | slot, t₁⟩
  · rw [hr] at h
    cases h
  · have hrest : observeItems o t₁ hint depth path 1 rest = (.ok [], t₁) := by
      rw [observeItems.eq_def]
      cases rest with
      | nil => rfl
      | cons w rest => simp [hm]
    rw [hr] at h
    simp only [Nat.zero_add, hrest] at h
    cases h
    exact ⟨slot, rfl, rfl⟩

mutual

/-- A walk without merging adds the records of the objects that it visits. -/
theorem gathers_observe (hm : o.mergeArrays = false) {t t' : ClassTable}
    {K : List (List (String × Outline))} (h : t.Portrays K) {hint : String} {depth : Nat}
    {path : List Step} (v : Json) (hkeys : ∀ k ∈ v.keys, ';' ∉ k.toList) {s : Slot}
    (hr : observe o t hint depth path v = (.ok s, t')) :
    ∃ K', Gathers K (mark o t hint depth path v).visited t' K' ∧
      s.Depicts (K ++ K') v.outline := by
  have hd := le_maxDepth_of_observe_eq_ok hr
  cases v with
  | null =>
      rw [observe.eq_def, if_neg hd] at hr
      cases hr
      exact ⟨[], gathers_nil h, .null⟩
  | bool b =>
      rw [observe.eq_def, if_neg hd] at hr
      cases hr
      exact ⟨[], gathers_nil h, .leaf nofun⟩
  | number n =>
      rw [observe.eq_def, if_neg hd] at hr
      cases hr
      exact ⟨[], gathers_nil h, .leaf (Json.numberShape_ne_null n)⟩
  | string x =>
      rw [observe.eq_def, if_neg hd] at hr
      cases hr
      exact ⟨[], gathers_nil h, .leaf nofun⟩
  | array items =>
      rcases observe_array_eq_ok hr with ⟨slots, t₁, hitems, hjoin, _⟩
      rw [mark.eq_def, Marked.visited, Json.outline]
      cases items with
      | nil =>
          rw [observeItems.eq_def] at hitems
          cases hitems
          cases hjoin
          exact ⟨[], gathers_nil h, .empty⟩
      | cons v rest =>
          -- Only the first element is looked at.
          rcases observeItems_first_eq_ok hm hitems with ⟨slot, rfl, hv⟩
          cases hjoin
          rw [Json.keys, Json.keysOfItems] at hkeys
          rcases gathers_observe hm h v (fun k hk => hkeys k (List.mem_append_left _ hk)) hv with
            ⟨K', hgathers, hdepicts⟩
          rw [markItems.eq_def, Marked.visitedFirst, Json.outlineFirst]
          exact ⟨K', hgathers, .list hdepicts⟩
  | object members =>
      rcases observe_object_eq_ok hr with ⟨fields, t₁, hmembers, hregister, _⟩
      rw [Json.keys] at hkeys
      rcases gathers_observeMembers hm h members hkeys hmembers with ⟨K₁, hgathers, hdepict⟩
      rw [← Field.map_withNames Field.entry fun _ _ => rfl] at hdepict
      rcases hgathers.portrays.registerObject (fun m hm => hkeys _ (Json.mem_keysOfMembers hm))
        hdepict hregister with ⟨i, K₂, rfl, hi, hportrays, hK₂⟩
      have hid : classOf (observe o t hint depth path (.object members)) = i := by
        rw [hr]
        rfl
      rw [mark.eq_def, Marked.visited, hid, Json.outline]
      have hself : Node.outline ⟨i, markMembers o t (depth + 1) path members⟩ =
          Json.outlineMembers members := by
        rw [Node.outline, eraseMembers_markMembers]
      -- The object comes before its members in the document and after them in the table.
      have hlast : Gathers (K ++ K₁) [⟨i, markMembers o t (depth + 1) path members⟩] t' K₂ :=
        ⟨hportrays, fun n hn => List.mem_singleton.mp hn ▸ hself ▸ hi,
          fun ks hks => ⟨_, List.mem_singleton_self _, hself.trans (hK₂ ks hks).symm⟩⟩
      refine ⟨K₁ ++ K₂, (hgathers.append hlast).of_mem_iff fun n => ?_, ?_⟩
      · rw [List.mem_append, List.mem_singleton, List.mem_cons, or_comm]
      · exact .object (List.append_assoc K K₁ K₂ ▸ hi)

/-- The same of the members of an object, which add their records one after the other. -/
theorem gathers_observeMembers (hm : o.mergeArrays = false) {t t' : ClassTable}
    {K : List (List (String × Outline))} (h : t.Portrays K) {depth : Nat} {path : List Step}
    (members : List (String × Json)) (hkeys : ∀ k ∈ Json.keysOfMembers members, ';' ∉ k.toList)
    {fields : List Field} (hr : observeMembers o t depth path members = (.ok fields, t')) :
    ∃ K', Gathers K (Marked.visitedMembers (markMembers o t depth path members)) t' K' ∧
      Depict (K ++ K') (fields.map Field.entry) (Json.outlineMembers members) := by
  cases members with
  | nil =>
      rw [observeMembers.eq_def] at hr
      cases hr
      exact ⟨[], gathers_nil h, .nil⟩
  | cons member rest =>
      rcases member with ⟨key, v⟩
      rcases observeMembers_cons_eq_ok hr with ⟨slot, fields', t₁, rfl, hv, hrest, _⟩
      rw [Json.keysOfMembers] at hkeys
      -- The objects of the first member are gathered before those of the others.
      rcases gathers_observe hm h v (fun k hk => hkeys k
        (List.mem_cons_of_mem key (List.mem_append_left _ hk))) hv with ⟨K₁, hg₁, hdepicts⟩
      rcases gathers_observeMembers hm hg₁.portrays rest (fun k hk => hkeys k
        (List.mem_cons_of_mem key (List.mem_append_right _ hk))) hrest with ⟨K₂, hg₂, hdepict⟩
      rw [markMembers.eq_def, Marked.visitedMembers.eq_def, Json.outlineMembers]
      simp only [hv]
      refine ⟨K₁ ++ K₂, hg₁.append hg₂, ?_⟩
      rw [← List.append_assoc]
      exact .cons ⟨rfl, hdepicts.append K₂⟩ hdepict

end

/-- A whole walk that succeeds. The record of the root comes last, and it is none
    of the others. -/
theorem gathers_observeRoot (hm : o.mergeArrays = false) {name : String} {v : Json}
    (hkeys : ∀ k ∈ v.keys, ';' ∉ k.toList) {root : ClassId}
    (h : observeRoot o .empty name v = (.ok root, t)) : ∃ members K ms,
      markRoot o .empty name v = .object root members ∧ t.Portrays (K ++ [ms]) ∧
        root = K.length ∧ Node.outline ⟨root, members⟩ = ms ∧
        (∀ n ∈ Marked.visitedMembers members, K[n.id]? = some n.outline) ∧
        ∀ ks ∈ K, ∃ n ∈ Marked.visitedMembers members, n.outline = ks := by
  rcases observeRoot_eq_ok h with ⟨members, fields, t₁, rfl, hmembers, hpin, _⟩
  -- The walk begins with a table that portrays nothing.
  have hempty : (ClassTable.empty.reserveName name).Portrays [] :=
    { wellFormed := WellFormed.empty.rewrites_self (rewrites_reserveName .empty name)
      indexExact := indexExact_empty.apply (.reserve name)
      size_eq := rfl
      nodup := List.nodup_nil
      separable := fun _ hms => absurd hms List.not_mem_nil
      depict := fun _ _ hi => by cases hi }
  rw [Json.keys] at hkeys
  rcases gathers_observeMembers hm hempty members hkeys hmembers with ⟨K, hgathers, hdepict⟩
  rw [List.nil_append] at hdepict
  have hportrays : t₁.Portrays K := hgathers.portrays
  rw [← Field.map_withNames Field.entry fun _ _ => rfl] at hdepict
  have hself : Node.outline ⟨root, markMembers o (ClassTable.empty.reserveName name) 1 [] members⟩ =
      Json.outlineMembers members := by
    rw [Node.outline, eraseMembers_markMembers]
  -- The root is larger than any object in it, so its record is not among theirs.
  have hnew : Json.outlineMembers members ∉ K := by
    intro hmem
    rcases hgathers.node _ hmem with ⟨n, hn, heq⟩
    have hlt := Marked.sizeOf_visitedMembers _ n hn
    rw [heq, eraseMembers_markMembers] at hlt
    exact Nat.lt_irrefl _ hlt
  refine ⟨_, K, Json.outlineMembers members, by simp only [markRoot, h], ?_, ?_, hself,
    hgathers.outline_eq, hgathers.node⟩
  · have hpinned := hportrays.registerPinned (fun m hm => hkeys _ (Json.mem_keysOfMembers hm))
      hdepict hnew name
    rwa [hpin] at hpinned
  · exact (congrArg Prod.fst hpin).symm.trans hportrays.size_eq

end Inference

namespace Catalog

open ClassTable

variable {t : ClassTable} {K : List (List (String × Outline))} {root : ClassId}

/-! ### The classes that are written -/

/-- The table of the catalog is the one that the walk left. -/
theorem table_ofTable_of_portrays (h : t.Portrays K) (root : ClassId) :
    (ofTable t root).table = t := h.foldDuplicates_eq

/-- There are as many classes as records. -/
theorem size_ofTable (h : t.Portrays K) (hroot : root < t.entries.size) :
    (ofTable t root).size = K.length := by
  have hlow := lowerable_of_wellFormed h.wellFormed hroot
  have horder : (ofTable t root).order.Perm (List.range t.entries.size) := by
    refine (List.perm_ext_iff_of_nodup hlow.nodup_order List.nodup_range).mpr fun i => ?_
    rw [hlow.mem_order_iff, h.foldDuplicates_eq, List.mem_range]
    exact ⟨fun ⟨c, hc⟩ => lt_of_at? hc, h.at?_of_lt⟩
  rw [size, horder.length_eq, List.length_range, h.size_eq]

/-- The class of an object has its keys, and can be null where it has nulls. -/
theorem exists_class_of_outline (h : t.Portrays K) (hroot : root < t.entries.size) {n : Node}
    (hn : K[n.id]? = some n.outline) : ∃ c ∈ (ofTable t root).classes,
      c.id = n.id ∧ c.fields.map (fun f => (f.key, f.slot.nullable)) = n.nulls := by
  have hlow := lowerable_of_wellFormed h.wellFormed hroot
  rcases h.depict n.id n.outline hn with ⟨c, hc, hdepict⟩
  refine ⟨c, hlow.mem_classes_iff.mpr ⟨n.id, h.foldDuplicates_eq.symm ▸ hc⟩,
    h.wellFormed.id_eq n.id c hc, ?_⟩
  rw [← n.map_outline, ← hdepict.map_nullable, ClassDef.layout, List.map_map]
  rfl

/-- Without merging, and if no key has a semicolon, two objects below the root are
    of the same class if and only if they have the same outline. The class of an
    object has its keys in their order, and exactly the fields whose values are
    null may be null. And there is one class for every outline below the root, and
    one for the root. -/
theorem shared_iff_outline_eq {o : Options} (hm : o.mergeArrays = false) {name : String} {v : Json}
    (hkeys : ∀ k ∈ v.keys, ';' ∉ k.toList) {catalog : Catalog}
    (h : ofDocument o name v = .ok catalog) :
    (∀ n ∈ (Inference.markRoot o .empty name v).visitedBelow,
      ∀ n' ∈ (Inference.markRoot o .empty name v).visitedBelow,
        catalog.table.resolve n.id = catalog.table.resolve n'.id ↔ n.outline = n'.outline) ∧
    (∀ n ∈ (Inference.markRoot o .empty name v).visited, ∃ c ∈ catalog.classes,
      c.id = catalog.table.resolve n.id ∧
        c.fields.map (fun f => (f.key, f.slot.nullable)) = n.nulls) ∧
    catalog.size =
      1 + ((Inference.markRoot o .empty name v).visitedBelow.map Node.outline).dedup.length := by
  rcases ofDocument_eq_ok h with ⟨root, t, hobserve, _, _, rfl⟩
  rcases Inference.gathers_observeRoot hm hkeys hobserve with
    ⟨members, K, ms, hmark, hportrays, hlast, hself, houtline, hnode⟩
  have hK : K.Nodup := (List.nodup_append.mp hportrays.nodup).1
  have hroot : root < t.entries.size := by
    rw [hlast, hportrays.size_eq, List.length_append]
    exact Nat.lt_succ_self _
  rw [hmark, table_ofTable_of_portrays hportrays]
  -- A class has the number of its record, and no record occurs twice.
  refine ⟨fun n hn n' hn' => ?_, fun n hn => ?_, ?_⟩
  · rw [hportrays.resolve_eq, hportrays.resolve_eq]
    have hi := houtline n hn
    have hi' := houtline n' hn'
    constructor
    · intro heq
      rw [heq, hi'] at hi
      exact (Option.some.inj hi).symm
    · intro heq
      exact (List.getElem?_inj (List.getElem?_eq_some_iff.mp hi).1 hK).mp
        (hi.trans (heq ▸ hi'.symm))
  · rw [hportrays.resolve_eq]
    refine exists_class_of_outline hportrays hroot ?_
    rcases List.mem_cons.mp hn with rfl | hn
    · rw [hself, hlast, List.getElem?_concat_length]
    · have hi := houtline n hn
      exact (List.getElem?_append_left (List.getElem?_eq_some_iff.mp hi).1).trans hi
  · -- The records of the table are those of the visited objects, each once.
    have hrecords : K.Perm ((Marked.visitedMembers members).map Node.outline).dedup := by
      refine (List.perm_ext_iff_of_nodup hK (List.nodup_dedup _)).mpr fun ks => ?_
      rw [List.mem_dedup, List.mem_map]
      exact ⟨hnode ks, fun ⟨n, hn, heq⟩ => heq ▸ List.mem_of_getElem? (houtline n hn)⟩
    rw [size_ofTable hportrays hroot, List.length_append, List.length_singleton,
      hrecords.length_eq, Marked.visitedBelow, Nat.add_comm]

/-- Three objects are visited below the root. The first and the last have the same
    outline, and the one between them has the same keys in another order. -/
def sharingDocument : Json :=
  .object [("a", .array [.object [("x", .null), ("y", .bool true)], .object [("z", .null)]]),
    ("b", .object [("y", .bool false), ("x", .null)]),
    ("c", .object [("x", .null), ("y", .bool false)])]

/-- The root, one class for two of the objects, and one for the third. -/
theorem shared_iff_outline_eq_sharing : (∀ k ∈ sharingDocument.keys, ';' ∉ k.toList) ∧
    ∃ catalog, ofDocument { mergeArrays := false } "Root" sharingDocument = .ok catalog ∧
      catalog.size = 3 := by
  have hkeys : ∀ k ∈ sharingDocument.keys, ';' ∉ k.toList := by decide
  refine ⟨hkeys, ?_⟩
  have hok : (ofDocument { mergeArrays := false } "Root" sharingDocument).isOk = true := by
    decide +kernel
  rcases hc : ofDocument { mergeArrays := false } "Root" sharingDocument with e | catalog
  · rw [hc] at hok
    cases hok
  · refine ⟨catalog, rfl, ?_⟩
    rw [(shared_iff_outline_eq rfl hkeys hc).2.2]
    decide +kernel

end Catalog

end DartModels
