import DartModels.Proofs.Index

/-!
# Twins

What is left of a shape that two classes have when one of them is given new
fields.

Giving a class the fields of another one makes the two one. Where the other is
the older of the two this is seen to at once: the index, which has just been
rebuilt, leads from the signature to it. Whether the class that comes out is then
the only one of its shape is a different question. Only one pair is made one, and
there may be a third class. It may have had the shape before, because merges make
classes equal that they never look at and because the root is never compared
with anything. And it may come to have it now, when references to the class that
gave way are updated. Both kinds wait for `foldDuplicates`.

So the statement names the third classes. They are those that have the signature
of the class that stayed when the references in their fields are those of today.

## Main definitions

* `Oldest`: The oldest live class with a signature.
* `Untwinned`: A live class that no other live class has the signature of.

## Theorems

* `IndexExact.index_eq_oldest`: The index leads to the oldest class.
* `foldIntoTwin_of_oldest_eq`, `foldIntoTwin_of_oldest_lt`: A class is made one
  with the oldest of its shape, if that is another one.
* `untwinned_settle_iff`: When a class gave way, only third classes can be twins.
* `WellFormed.untwinned_install`, `WellFormed.oldest_install`: Who has the new
  shape once it is given to the class.
* `Reachable.replaceFields_untwinned`: Who is a twin after new fields.
* `not_forall_untwinned`: Two equal classes are not both made one with a third.
-/

namespace DartModels

namespace ClassTable

variable {t : ClassTable} {d i id source target : ClassId} {c : ClassDef} {s : String}
  {fields : List Field}

/-- The oldest live class with a signature. -/
def Oldest (t : ClassTable) (s : String) (d : ClassId) : Prop :=
  (∃ c, t.at? d = some c ∧ c.signature = s) ∧
    ∀ j e, t.at? j = some e → e.signature = s → d ≤ j

/-- A live class whose signature no other live class has. -/
def Untwinned (t : ClassTable) (r : ClassId) : Prop :=
  ∃ c, t.at? r = some c ∧ ∀ j e, t.at? j = some e → j ≠ r → e.signature ≠ c.signature

/-- A class without twins is the oldest of its shape, being the only one. -/
theorem Untwinned.oldest (h : t.Untwinned id) (hc : t.at? id = some c) :
    t.Oldest c.signature id := by
  rcases h with ⟨c', hc', hother⟩
  cases Option.some.inj (hc'.symm.trans hc)
  refine ⟨⟨c, hc, rfl⟩, fun j e he hsig => ?_⟩
  by_contra hle
  exact hother j e he (fun hj => hle (Nat.le_of_eq hj.symm)) hsig

/-- The index leads from a signature to the oldest class that has it. -/
theorem IndexExact.index_eq_oldest (h : t.IndexExact) (hv : t.Valid) (ho : t.Oldest s d) :
    t.index[s]? = some d :=
  (h.index_iff hv).mpr ho

/-! ### The class and the oldest of its shape -/

/-- The oldest class of its shape is left as it is. -/
theorem foldIntoTwin_of_oldest_eq (h : t.IndexExact) (hv : t.Valid) (hc : t.at? id = some c)
    (ho : t.Oldest c.signature id) : t.foldIntoTwin id = (id, t) := by
  have hfind : t.find? id = some c := by rw [find?_eq_at?, resolve_of_at? hc, hc]
  simp only [foldIntoTwin, hfind, h.index_eq_oldest hv ho, resolve_of_at? hc, if_true]

/-- Any other class is made one with the oldest of its shape, which stays unless
    the class is pinned. -/
theorem foldIntoTwin_of_oldest_lt (h : t.IndexExact) (hv : t.Valid) (hc : t.at? id = some c)
    (ho : t.Oldest c.signature d) (hlt : d < id) : ∃ stays gives,
      (stays = if t.pinned = some id then id else d) ∧ t.GivesWay gives stays ∧
        (stays = d ∧ gives = id ∨ stays = id ∧ gives = d) ∧
        t.foldIntoTwin id = (stays, (t.redirect gives stays).settle) := by
  rcases ho.1 with ⟨e, he, _⟩
  have hne : d ≠ id := Nat.ne_of_lt hlt
  have hfind : t.find? id = some c := by rw [find?_eq_at?, resolve_of_at? hc, hc]
  -- The index names the older class, and the pair is put in order as for any absorption.
  rcases orderPair_givesWay he hc hne with ⟨stays, gives, hpair, hg, hcase⟩
  refine ⟨stays, gives, ?_, hg, hcase, ?_⟩
  · by_cases hpin : t.pinned = some id
    · rw [if_pos hpin]
      rcases hcase with ⟨_, rfl⟩ | ⟨rfl, _⟩
      · exact absurd hpin hg.not_pinned
      · rfl
    -- Nobody but the pinned class stays in the place of an older one.
    · rw [if_neg hpin]
      rcases hcase with ⟨rfl, _⟩ | ⟨rfl, rfl⟩
      · rfl
      · rcases hg.stays with hle | hpin'
        · exact absurd hle (Nat.not_lt_of_lt hlt)
        · exact absurd hpin' hpin
  · simp only [foldIntoTwin, hfind, h.index_eq_oldest hv ho, resolve_of_at? he, if_neg hne, hpair]

/-! ### Third classes -/

/-- When a class has given way to another, the twins of the one that stayed are
    third classes: those that have its signature with their references brought
    up to date. -/
theorem untwinned_settle_iff (hg : t.GivesWay source target) :
    (t.redirect source target).settle.Untwinned target ↔
      ∀ j e, t.at? j = some e → j ≠ source → j ≠ target →
        ∀ k, (t.redirect source target).settle.at? target = some k →
          (e.mapIds (t.redirect source target).settle.resolve).signature ≠ k.signature := by
  have hr := rewrites_settle (t.redirect source target)
  have hresolve : (t.redirect source target).settle.resolve = (t.redirect source target).resolve :=
    funext hr.resolve
  have hafter : ∀ {j e}, t.at? j = some e → j ≠ source →
      (t.redirect source target).settle.at? j =
        some (e.mapIds (t.redirect source target).settle.resolve) := fun he hj => by
    rw [hresolve]
    exact hr.at?_eq_some.mpr ⟨_, at?_redirect_eq_some_iff.mpr ⟨hj, he⟩, rfl⟩
  constructor
  · -- Both sides speak of the same classes: those that are live afterwards are those that
    -- were before, less `source`, with their references renumbered.
    rintro ⟨k, hk, hall⟩ j e he hsource htarget k' hk'
    rw [← Option.some.inj (hk.symm.trans hk')]
    exact hall j _ (hafter he hsource) htarget
  · intro hall
    rcases hg.target_live with ⟨c, hc⟩
    refine ⟨_, hafter hc hg.ne.symm, fun j e he hj => ?_⟩
    rcases hr.at?_eq_some.mp he with ⟨e', he', rfl⟩
    rcases at?_redirect_eq_some_iff.mp he' with ⟨hsource, hold⟩
    rw [← hresolve]
    exact hall j e' hold hsource hj _ (hafter hc hg.ne.symm)

/-- Only the class that was asked for has other fields after `install`. -/
theorem WellFormed.at?_install_of_ne (h : t.WellFormed) (hid : id < t.entries.size)
    (fields : List Field) (hi : i ≠ t.resolve id) : (t.install id fields).at? i = t.at? i := by
  rw [(h.linked.rewrites_install hid fields).at?_eq, onlyAt_of_ne _ hi, Option.map_id']

/-- A class is without twins if no other class had its new shape before. -/
theorem WellFormed.untwinned_install (h : t.WellFormed) (hid : id < t.entries.size)
    (hc : (t.install id fields).at? (t.resolve id) = some c)
    (hnone : ∀ j e, t.at? j = some e → j ≠ t.resolve id → e.signature ≠ c.signature) :
    (t.install id fields).Untwinned (t.resolve id) := by
  refine ⟨c, hc, fun j e he hj => ?_⟩
  rw [h.at?_install_of_ne hid fields hj] at he
  exact hnone j e he hj

/-- Whoever is the oldest of the new shape before it is given to a younger class
    is so afterwards. -/
theorem WellFormed.oldest_install (h : t.WellFormed) (hid : id < t.entries.size)
    (ho : t.Oldest s d) (hlt : d < t.resolve id) : (t.install id fields).Oldest s d := by
  refine ⟨?_, fun j e he hsig => ?_⟩
  · rw [h.at?_install_of_ne hid fields (Nat.ne_of_lt hlt)]
    exact ho.1
  · by_cases hj : j = t.resolve id
    · exact Nat.le_of_lt (hj ▸ hlt)
    · rw [h.at?_install_of_ne hid fields hj] at he
      exact ho.2 j e he hsig

/-- A class and what becomes of it when it is given new fields.

    If no other class has the new shape, nothing gives way and none has it
    afterwards. If the oldest class with the new shape is older, the two are one
    class from now on. It is the older one unless the other is pinned, and a live
    class is its twin exactly if it is a third class and has its signature with
    the references brought up to date. -/
theorem Reachable.replaceFields_untwinned (h : t.Reachable) (hid : id < t.entries.size)
    (hk : Field.KnownAll t.entries.size fields) :
    (t.replaceFields id fields).2.resolve id = (t.replaceFields id fields).1 ∧
      ((∀ j e, t.at? j = some e → j ≠ t.resolve id →
          e.signature ≠ signatureOf (t.canonical fields)) →
        (t.replaceFields id fields).1 = t.resolve id ∧
          (t.replaceFields id fields).2.size = t.size ∧
          (t.replaceFields id fields).2.Untwinned (t.replaceFields id fields).1) ∧
      ∀ d, t.Oldest (signatureOf (t.canonical fields)) d → d < t.resolve id →
        ((t.replaceFields id fields).1 =
            if t.pinned = some (t.resolve id) then t.resolve id else d) ∧
          (t.replaceFields id fields).2.resolve d = (t.replaceFields id fields).1 ∧
          (t.replaceFields id fields).2.size + 1 = t.size ∧
          ((t.replaceFields id fields).2.Untwinned (t.replaceFields id fields).1 ↔
            ∀ j e, t.at? j = some e → j ≠ t.resolve id → j ≠ d →
              ∀ k, (t.replaceFields id fields).2.at? (t.replaceFields id fields).1 = some k →
                (e.mapIds (t.replaceFields id fields).2.resolve).signature ≠ k.signature) := by
  have hw := h.wellFormed
  have hr := hw.linked.rewrites_install hid fields
  have hexact : (t.install id fields).IndexExact := indexExact_reindex _
  have hv : (t.install id fields).Valid := (hw.install hid hk).toValid
  rcases hw.at?_install hid fields with ⟨c, hc, hfields⟩
  have hsig : c.signature = signatureOf (t.canonical fields) := by
    rw [← hfields]
    rfl
  refine ⟨hw.resolve_replaceFields hid hk, fun hnone => ?_, fun d ho hlt => ?_⟩
  · -- The class is the only one with its signature, and therefore the oldest.
    have hu := hw.untwinned_install hid hc (hsig ▸ hnone)
    rw [replaceFields_eq, foldIntoTwin_of_oldest_eq hexact hv hc (hu.oldest hc)]
    exact ⟨rfl, hr.size, hu⟩
  · rcases foldIntoTwin_of_oldest_lt hexact hv hc (hsig ▸ hw.oldest_install hid ho hlt) hlt with
      ⟨stays, gives, hstays, hg, hcase, heq⟩
    have hm := MergedInto.of_settle hg
    rw [hr.pinned] at hstays
    -- The rest says of `t` what is known of the table with the new fields installed.
    have hd : (t.install id fields).resolve d = d := by
      rcases ho.1 with ⟨e, he, _⟩
      rw [hr.resolve, resolve_of_at? he]
    have hdlt : d < (t.install id fields).entries.size :=
      hr.entries_size ▸ Nat.lt_trans hlt (hw.linked.resolve_lt hid)
    rw [replaceFields_eq, heq]
    refine ⟨hstays, ?_, by rw [hm.size, hr.size], ?_⟩
    · rw [hm.resolve hv hdlt, hd]
      rcases hcase with ⟨rfl, rfl⟩ | ⟨rfl, rfl⟩
      · exact if_neg (Nat.ne_of_lt hlt)
      · exact if_pos rfl
    · -- The two that were made one are the class and the oldest, in either order.
      have hthird : ∀ j, j ≠ gives ∧ j ≠ stays ↔ j ≠ t.resolve id ∧ j ≠ d := fun j => by
        rcases hcase with ⟨rfl, rfl⟩ | ⟨rfl, rfl⟩
        · exact Iff.rfl
        · exact and_comm
      rw [untwinned_settle_iff hg]
      constructor
      · intro hall j e he hj hjd
        rcases (hthird j).mpr ⟨hj, hjd⟩ with ⟨hgives, hne⟩
        exact hall j e (by rwa [hw.at?_install_of_ne hid fields hj]) hgives hne
      · intro hall j e he hgives hne
        rcases (hthird j).mp ⟨hgives, hne⟩ with ⟨hj, hjd⟩
        rw [hw.at?_install_of_ne hid fields hj] at he
        exact hall j e he hj hjd

/-- A class, and a pinned one that is younger. -/
def pinnedTwinOps : List Operation :=
  [.register "A" [⟨"x", "x", ⟨.primitive .int, false⟩⟩], .pin "R" []]

/-- The pinned class is given the fields of the older one and takes its place. -/
theorem replaceFields_untwinned_pinned : ∃ t fields, t = empty.run pinnedTwinOps ∧
    fields = [⟨"x", "x", ⟨.primitive .int, false⟩⟩] ∧ t.Reachable ∧
    t.Oldest (signatureOf (t.canonical fields)) 0 ∧ (t.replaceFields 1 fields).1 = 1 ∧
    (t.replaceFields 1 fields).2.resolve 0 = 1 ∧ (t.replaceFields 1 fields).2.Untwinned 1 := by
  refine ⟨_, _, rfl, rfl, ?_⟩
  have hreach : (empty.run pinnedTwinOps).Reachable := Reachable.empty.run (by decide +kernel)
  have ho : (empty.run pinnedTwinOps).Oldest (signatureOf ((empty.run pinnedTwinOps).canonical
      [⟨"x", "x", ⟨.primitive .int, false⟩⟩])) 0 :=
    ⟨⟨⟨0, "A", [⟨"x", "x", ⟨.primitive .int, false⟩⟩]⟩, by decide +kernel, by decide +kernel⟩,
      fun j _ _ _ => Nat.zero_le j⟩
  have hsize : (empty.run pinnedTwinOps).entries.size = 2 := by decide +kernel
  have hself : (empty.run pinnedTwinOps).resolve 1 = 1 := by decide +kernel
  have hpin : (empty.run pinnedTwinOps).pinned = some 1 := by decide +kernel
  have hone : 1 < (empty.run pinnedTwinOps).entries.size := by decide +kernel
  have hknown : Field.KnownAll (empty.run pinnedTwinOps).entries.size
      [⟨"x", "x", ⟨.primitive .int, false⟩⟩] := by decide +kernel
  rcases (hreach.replaceFields_untwinned hone hknown).2.2 0 ho (by decide +kernel) with
    ⟨hr, hzero, _, htwin⟩
  rw [hself, hpin, if_pos rfl] at hr
  rw [hr] at hzero htwin
  refine ⟨hreach, ho, hr, hzero, htwin.mpr fun j e he hj hjd => ?_⟩
  -- There is no third class.
  have hlt : j < 2 := hsize ▸ lt_of_at? he
  rw [hself] at hj
  rcases Nat.le_one_iff_eq_zero_or_eq_one.mp (Nat.le_of_lt_succ hlt) with heq | heq
  · exact absurd heq hjd
  · exact absurd heq hj

/-- Two classes that a merge has made equal, and one of another shape. -/
def mergedTwinsOps : List Operation :=
  twinOps ++ [.register "E" [⟨"z", "z", ⟨.primitive .int, false⟩⟩]]

/-- A third class that is given the shape of two equal ones is made one with the
    first of them, and the second is left. -/
theorem not_forall_untwinned : ¬ ∀ t : ClassTable, t.Reachable → ∀ id < t.entries.size,
    ∀ fields, Field.KnownAll t.entries.size fields →
      (t.replaceFields id fields).2.Untwinned (t.replaceFields id fields).1 := by
  intro hall
  have hreach : (empty.run mergedTwinsOps).Reachable := Reachable.empty.run (by decide +kernel)
  rcases hall _ hreach 4 (by decide +kernel) [⟨"r", "r", ⟨.ref 0, false⟩⟩] (by decide +kernel) with
    ⟨c, hc, htwin⟩
  -- The class that stays is C, and D with the same fields is still there.
  have hstays : ((empty.run mergedTwinsOps).replaceFields 4 [⟨"r", "r", ⟨.ref 0, false⟩⟩]).1 = 2 :=
    by decide +kernel
  rw [hstays] at hc htwin
  have hkept : ((empty.run mergedTwinsOps).replaceFields 4 [⟨"r", "r", ⟨.ref 0, false⟩⟩]).2.at? 2 =
      some ⟨2, "C", [⟨"r", "r", ⟨.ref 0, false⟩⟩]⟩ := by decide +kernel
  have hleft : ((empty.run mergedTwinsOps).replaceFields 4 [⟨"r", "r", ⟨.ref 0, false⟩⟩]).2.at? 3 =
      some ⟨3, "D", [⟨"r", "r", ⟨.ref 0, false⟩⟩]⟩ := by decide +kernel
  refine htwin 3 _ hleft (by decide) ?_
  rw [← Option.some.inj (hkept.symm.trans hc)]
  decide +kernel

end ClassTable

end DartModels
