import DartModels.Proofs.Descent

/-!
# Merging terminates

That a merge comes to its end by itself.

The definitions of merging count how many merges are nested and would stop at
the number of live classes. So they end by construction, and the question is
whether that bound ever cuts anything off. Here merging is described once more,
by rules that know of no bound: what is left to do, what it comes to, the table
afterwards, and the calls that were made on the way. Nothing but a derivation of
finite size follows from such rules, and since there is one rule for each
situation, there is at most one derivation. A merge terminates if it has one.

Neither the slots nor the classes that they refer to become smaller, as a class
may contain itself. What becomes smaller is the number of live classes. Of two
classes one gives way before their fields are looked at, and none is made, so
every merge that is nested in the union finds fewer classes than the merge
around it. Between two merges it is the nesting of lists that becomes smaller.

## Main definitions

* `MergeTask`, `MergeAnswer`, `Evaluates`: Merging without a bound.
* `MergeCall.Consumes`: A call that makes no class, and leaves fewer of them if
  it finds two.
* `Ends`: A task has a derivation, and all calls on the way consume.

## Theorems

* `Evaluates.unique`: A task comes to one thing only.
* `ClassTable.NoneAdded.run`: Merges make no class.
* `Slot.ends_joinWith`, `Field.ends_uniteAllWith`: Joins and unions end if the
  merges in them do.
* `ClassTable.ends_mergeClasses`: Merging two classes ends.
* `ClassTable.Reachable.joins_terminate`: So do joins of slots, whatever the
  classes they refer to.
-/

namespace DartModels

open ClassTable

/-! ### Merging without a bound -/

/-- What is left to do. -/
inductive MergeTask where
  /-- Make two classes one. -/
  | merge (a b : ClassId)
  /-- Join two slots. -/
  | join (a b : Slot)
  /-- Take the fields of the second class into those united so far. -/
  | unite (fields bs : List Field)
  /-- Join a slot with those that follow it. -/
  | onto (acc : Slot) (slots : List Slot)
  /-- Join a row of slots. -/
  | all (slots : List Slot)

/-- What a task comes to. -/
inductive MergeAnswer where
  | id (c : ClassId)
  | slot (s : Slot)
  | fields (fs : List Field)
  | all (s : Option Slot)

/-- A call to merge two classes, with the tables before and after it. -/
structure MergeCall where
  before : ClassTable
  a : ClassId
  b : ClassId
  after : ClassTable

/-- Merging, step by step: a task in a table, what it comes to, the table
    afterwards, and the merges that were called for, in the order in which they
    returned. -/
inductive Evaluates :
    ClassTable → MergeTask → MergeAnswer → ClassTable → List MergeCall → Prop where
  -- Two numbers of one class have nothing to merge. Two classes first share one entry, and
  -- then their fields are united.
  | same {t : ClassTable} {a b : ClassId} (h : t.resolve a = t.resolve b) :
      Evaluates t (.merge a b) (.id (t.resolve a)) t [⟨t, a, b, t⟩]
  | merge {t t₁ t₂ t' : ClassTable} {a b s r : ClassId} {ca cb : ClassDef} {fields : List Field}
      {calls : List MergeCall} (hne : t.resolve a ≠ t.resolve b) (ha : t.find? a = some ca)
      (hb : t.find? b = some cb) (habsorb : t.absorb (t.resolve a) (t.resolve b) = (s, t₁))
      (hunite : Evaluates t₁ (.unite (ca.fields.foldl Field.insert []) cb.fields) (.fields fields)
        t₂ calls)
      (hreplace : t₂.replaceFields s (Field.withNames (fields.map fun f =>
        if (Field.find? cb.fields f.key).isSome then f else f.optional)) = (r, t')) :
      Evaluates t (.merge a b) (.id r) t' (calls ++ [⟨t, a, b, t'⟩])
  -- A join that settles leaves the table alone. The others go into the elements, or merge
  -- two classes.
  | settle {t : ClassTable} {a b : Slot} {z : Shape} (h : a.shape.Settles b.shape z) :
      Evaluates t (.join a b) (.slot ⟨z, a.nullable || b.nullable⟩) t []
  | list {t t' : ClassTable} {x y : Shape} {n m p q : Bool} {s : Slot} {calls : List MergeCall}
      (h : Evaluates t (.join ⟨x, n⟩ ⟨y, m⟩) (.slot s) t' calls) :
      Evaluates t (.join ⟨.list x n, p⟩ ⟨.list y m, q⟩)
        (.slot ⟨.list s.shape s.nullable, p || q⟩) t' calls
  | ref {t t' : ClassTable} {a b c : ClassId} {p q : Bool} {calls : List MergeCall}
      (h : Evaluates t (.merge a b) (.id c) t' calls) :
      Evaluates t (.join ⟨.ref a, p⟩ ⟨.ref b, q⟩) (.slot ⟨.ref c, p || q⟩) t' calls
  -- The fields are gone through in order, and a known one is joined where it stands.
  | united {t : ClassTable} {fields : List Field} :
      Evaluates t (.unite fields []) (.fields fields) t []
  | new {t t' : ClassTable} {fields rest fields' : List Field} {f : Field}
      {calls : List MergeCall} (hf : Field.find? fields f.key = none)
      (h : Evaluates t (.unite (fields ++ [f.optional]) rest) (.fields fields') t' calls) :
      Evaluates t (.unite fields (f :: rest)) (.fields fields') t' calls
  | known {t t₁ t' : ClassTable} {fields rest fields' : List Field} {f g : Field} {s : Slot}
      {calls calls' : List MergeCall} (hf : Field.find? fields f.key = some g)
      (hjoin : Evaluates t (.join g.slot f.slot) (.slot s) t₁ calls)
      (h : Evaluates t₁ (.unite (Field.insert fields { g with slot := s }) rest) (.fields fields')
        t' calls') :
      Evaluates t (.unite fields (f :: rest)) (.fields fields') t' (calls ++ calls')
  -- The same for the slots of a list, beginning with the first.
  | last {t : ClassTable} {acc : Slot} : Evaluates t (.onto acc []) (.slot acc) t []
  | next {t t₁ t' : ClassTable} {acc s s₁ s' : Slot} {rest : List Slot}
      {calls calls' : List MergeCall} (hjoin : Evaluates t (.join acc s) (.slot s₁) t₁ calls)
      (h : Evaluates t₁ (.onto s₁ rest) (.slot s') t' calls') :
      Evaluates t (.onto acc (s :: rest)) (.slot s') t' (calls ++ calls')
  | none {t : ClassTable} : Evaluates t (.all []) (.all none) t []
  | some {t t' : ClassTable} {s s' : Slot} {rest : List Slot} {calls : List MergeCall}
      (h : Evaluates t (.onto s rest) (.slot s') t' calls) :
      Evaluates t (.all (s :: rest)) (.all (some s')) t' calls

/-- A task comes to one thing only, by the same calls. -/
theorem Evaluates.unique {t t' : ClassTable} {task : MergeTask} {r : MergeAnswer}
    {calls : List MergeCall} (h : Evaluates t task r t' calls) :
    ∀ {r' t'' calls'}, Evaluates t task r' t'' calls' → r = r' ∧ t' = t'' ∧ calls = calls' := by
  -- For every task the table decides which rule applies.
  induction h with
  | same h =>
      intro r' t'' calls' h'
      cases h' with
      | same => exact ⟨rfl, rfl, rfl⟩
      | merge hne => exact absurd h hne
  | merge hne ha hb habsorb _ hreplace ih =>
      intro r' t'' calls' h'
      cases h' with
      | same h => exact absurd h hne
      | merge _ ha' hb' habsorb' hunite' hreplace' =>
          cases ha.symm.trans ha'
          cases hb.symm.trans hb'
          cases habsorb.symm.trans habsorb'
          rcases ih hunite' with ⟨hfields, rfl, rfl⟩
          cases hfields
          cases hreplace.symm.trans hreplace'
          exact ⟨rfl, rfl, rfl⟩
  | settle h =>
      intro r' t'' calls' h'
      cases h' with
      | settle h' => exact ⟨by rw [h.unique h'], rfl, rfl⟩
      | list => exact absurd h Shape.not_settles_list
      | ref => exact absurd h Shape.not_settles_ref
  | list _ ih =>
      intro r' t'' calls' h'
      cases h' with
      | settle h => exact absurd h Shape.not_settles_list
      | list h =>
          rcases ih h with ⟨hs, rfl, rfl⟩
          cases hs
          exact ⟨rfl, rfl, rfl⟩
  | ref _ ih =>
      intro r' t'' calls' h'
      cases h' with
      | settle h => exact absurd h Shape.not_settles_ref
      | ref h =>
          rcases ih h with ⟨hc, rfl, rfl⟩
          cases hc
          exact ⟨rfl, rfl, rfl⟩
  | united =>
      intro r' t'' calls' h'
      cases h'
      exact ⟨rfl, rfl, rfl⟩
  | new hf _ ih =>
      intro r' t'' calls' h'
      cases h' with
      | new _ h => exact ih h
      | known hf' => cases hf.symm.trans hf'
  | known hf _ _ ihj ih =>
      intro r' t'' calls' h'
      cases h' with
      | new hf' => cases hf.symm.trans hf'
      | known hf' hjoin h =>
          cases hf.symm.trans hf'
          rcases ihj hjoin with ⟨hs, rfl, rfl⟩
          cases hs
          rcases ih h with ⟨hfields, rfl, rfl⟩
          exact ⟨hfields, rfl, rfl⟩
  | last =>
      intro r' t'' calls' h'
      cases h'
      exact ⟨rfl, rfl, rfl⟩
  | next _ _ ihj ih =>
      intro r' t'' calls' h'
      cases h' with
      | next hjoin h =>
          rcases ihj hjoin with ⟨hs, rfl, rfl⟩
          cases hs
          rcases ih h with ⟨hs', rfl, rfl⟩
          exact ⟨hs', rfl, rfl⟩
  | none =>
      intro r' t'' calls' h'
      cases h'
      exact ⟨rfl, rfl, rfl⟩
  | some _ ih =>
      intro r' t'' calls' h'
      cases h' with
      | some h =>
          rcases ih h with ⟨hs, rfl, rfl⟩
          cases hs
          exact ⟨rfl, rfl, rfl⟩

/-- A merge is one of its own calls. -/
theorem Evaluates.self_mem {t t' : ClassTable} {a b : ClassId} {r : MergeAnswer}
    {calls : List MergeCall} (h : Evaluates t (.merge a b) r t' calls) :
    ⟨t, a, b, t'⟩ ∈ calls := by
  cases h with
  | same => exact List.mem_singleton.mpr rfl
  | merge => exact List.mem_append_right _ (List.mem_singleton.mpr rfl)

/-! ### Merges make no class -/

namespace ClassTable

variable {t t' t'' : ClassTable}

/-- Nothing was added on the way from `t` to `t'`: no number was given out, and
    what is live was live before. -/
structure NoneAdded (t t' : ClassTable) : Prop where
  entries_size : t'.entries.size = t.entries.size
  live : ∀ i c', t'.at? i = some c' → ∃ c, t.at? i = some c

theorem NoneAdded.refl (t : ClassTable) : NoneAdded t t :=
  ⟨rfl, fun _ c hc => ⟨c, hc⟩⟩

theorem NoneAdded.trans (h : NoneAdded t t') (h' : NoneAdded t' t'') : NoneAdded t t'' where
  entries_size := h'.entries_size.trans h.entries_size
  live i c'' hc'' := by
    rcases h'.live i c'' hc'' with ⟨c', hc'⟩
    exact h.live i c' hc'

/-- Whatever descends from a table has no class that was not there. -/
theorem Descends.noneAdded (h : Descends t t') : NoneAdded t t' where
  entries_size := h.entries_size
  live i c' hc' := by
    rcases h.at?_eq_some i c' hc' with ⟨c, hc, _⟩
    exact ⟨c, hc⟩

/-- The two operations that merges are made of add nothing. -/
theorem NoneAdded.apply (h : t.WellFormed) {op : Operation} (hm : op.Merges)
    (hk : op.Known t.entries.size) : NoneAdded t (op.apply t) := by
  cases op with
  | absorb a b => exact (h.descends_absorb hk.1 hk.2).noneAdded
  | replace id fields =>
      have hr := h.linked.rewrites_install hk.1 fields
      have hinstall : NoneAdded t (t.install id fields) := by
        refine ⟨hr.entries_size, fun i c' hc' => ?_⟩
        rcases hr.at?_eq_some.mp hc' with ⟨c, hc, _⟩
        exact ⟨c, hc⟩
      exact hinstall.trans (h.descends_replaceFields hk.1 hk.2).noneAdded
  | _ => exact hm.elim

/-- So whatever a merge does on the way, it adds nothing. -/
theorem NoneAdded.run (h : t.WellFormed) {ops : List Operation} (hl : t.Legal ops)
    (hm : ∀ op ∈ ops, op.Merges) : NoneAdded t (t.run ops) := by
  induction ops generalizing t with
  | nil => exact NoneAdded.refl t
  | cons op rest ih =>
      rcases hl with ⟨hk, hp, hrest⟩
      rw [List.forall_mem_cons] at hm
      exact (NoneAdded.apply h hm.1 hk).trans (ih (h.apply hk hp).1 hrest hm.2)

end ClassTable

/-- No class is made by a call, and if it finds two different ones it leaves
    fewer classes than there were. -/
structure MergeCall.Consumes (c : MergeCall) : Prop where
  noneAdded : NoneAdded c.before c.after
  size_lt : c.before.resolve c.a ≠ c.before.resolve c.b → c.after.size < c.before.size

/-- A task ends, and all merges that are called for on the way consume. -/
def Ends (t : ClassTable) (task : MergeTask) (r : MergeAnswer) (t' : ClassTable) : Prop :=
  ∃ calls, Evaluates t task r t' calls ∧ ∀ c ∈ calls, c.Consumes

/-- A way of merging that comes to an end by itself, as long as no more than `n`
    classes are live. -/
def Terminates (n : Nat) (merge : ClassMerge) : Prop :=
  ∀ (t : ClassTable) (a b : ClassId), t.WellFormed → a < t.entries.size → b < t.entries.size →
    t.size ≤ n → Ends t (.merge a b) (.id (merge t a b).1) (merge t a b).2

/-! ### Joins and unions -/

section Ends

variable {n : Nat} {ops : MergeJournal} {merge : ClassMerge} {t : ClassTable}

/-- A join ends if the merges do that it calls for. -/
theorem Slot.ends_joinWith (hm : Terminates n merge) (ht : t.WellFormed) (hn : t.size ≤ n)
    {a b : Slot} (ha : a.Known t.entries.size) (hb : b.Known t.entries.size) :
    Ends t (.join a b) (.slot (a.joinWith merge t b).1) (a.joinWith merge t b).2 := by
  -- Whether the slots may be null is carried along by every rule.
  have hshape : ∀ p q : Bool, Ends t (.join ⟨a.shape, p⟩ ⟨b.shape, q⟩)
      (.slot ⟨(a.shape.joinWith merge t b.shape).1, p || q⟩)
      (a.shape.joinWith merge t b.shape).2 := by
    refine Shape.joinWith_rules
      (P := fun x y r => (∀ id ∈ x.ids, id < t.entries.size) →
        (∀ id ∈ y.ids, id < t.entries.size) → ∀ p q : Bool,
          Ends t (.join ⟨x, p⟩ ⟨y, q⟩) (.slot ⟨r.1, p || q⟩) r.2)
      ?_ ?_ ?_ a.shape b.shape ha hb
    · intro x y z hz _ _ p q
      exact ⟨[], .settle hz, fun c hc => absurd hc List.not_mem_nil⟩
    · intro x n y m ih hx hy p q
      rcases ih hx hy n m with ⟨calls, he, hc⟩
      exact ⟨calls, .list he, hc⟩
    · intro i j hi hj p q
      rcases hm t i j ht (hi i (List.mem_singleton.mpr rfl)) (hj j (List.mem_singleton.mpr rfl))
        hn with ⟨calls, he, hc⟩
      exact ⟨calls, .ref he, hc⟩
  exact hshape a.nullable b.nullable

/-- So does taking fields in, one after the other. Merges on the way leave fewer live
    classes, so the bound that is known to be enough stays enough. -/
theorem Field.ends_uniteAllWith (h : Lawful n ops merge) (hm : Terminates n merge)
    (ht : t.WellFormed) (hn : t.size ≤ n) {fields bs : List Field}
    (hf : KnownAll t.entries.size fields) (hb : KnownAll t.entries.size bs) :
    Ends t (.unite fields bs) (.fields (uniteAllWith merge fields t bs).1)
      (uniteAllWith merge fields t bs).2 := by
  induction bs generalizing fields t with
  | nil => exact ⟨[], .united, fun c hc => absurd hc List.not_mem_nil⟩
  | cons f rest ih =>
      have hs := hb f List.mem_cons_self
      have hc := (uniteWith_continues h ht hf hs).1
      rcases knownAll_uniteWith h ht hf hb with ⟨hk₁, hb₁⟩
      -- The rest is taken in by the table that the first field leaves.
      have hrest := ih hc.wellFormed (Nat.le_trans hc.size_le hn) hk₁ hb₁
      rw [uniteAllWith]
      unfold uniteWith at hrest ⊢
      cases hfind : find? fields f.key with
      | none =>
          simp only [hfind] at hrest ⊢
          rcases hrest with ⟨calls, he, hcalls⟩
          exact ⟨calls, .new hfind he, hcalls⟩
      | some g =>
          simp only [hfind] at hrest ⊢
          rcases hrest with ⟨calls', he', hcalls'⟩
          rcases Slot.ends_joinWith hm ht hn (hf g (mem_of_find? hfind).1) hs with
            ⟨calls, he, hcalls⟩
          refine ⟨calls ++ calls', .known hfind he he', fun c hc => ?_⟩
          exact (List.mem_append.mp hc).elim (hcalls c) (hcalls' c)

end Ends

namespace ClassTable

variable {t : ClassTable}

/-- A merge that finds two classes leaves at least one less. -/
theorem Stages.size_lt {n : Nat} {a b s : ClassId} {ca cb : ClassDef} {t₁ t₂ : ClassTable}
    {fields : List Field} (hs : Stages n t a b ca cb s t₁ t₂ fields) (h : t.WellFormed)
    (ha : a < t.entries.size) (hb : b < t.entries.size) :
    (t₂.replaceFields s fields).2.size < t.size := by
  have hlaw := lawful_mergeUpTo n
  have habsorbed := hs.size_succ h ha hb
  have hunited := (hs.unites hlaw h ha hb).1.size_le
  have hreplaced := (hs.replaces hlaw h ha hb).1.size_le
  omega

/-- The bound on nested merges is never what ends a merge of a table with no more live
    classes. -/
theorem terminates_mergeUpTo (n : Nat) : Terminates n (mergeUpTo n) := by
  -- The class that gives way is gone before the fields are united, so the nested
  -- merges find at most `n` live classes where there were `n + 1`.
  induction n with
  | zero =>
      intro t a b h ha _ hn
      -- Without a live class there would be no number to merge.
      have hpos := h.linked.size_pos ha
      omega
  | succ n ih =>
      intro t a b h ha hb hn
      rcases mergeUpTo_cases h ha hb n with ⟨hab, heq, _⟩ | ⟨ca, cb, s, t₁, t₂, fields, hs⟩
      · rw [heq]
        refine ⟨_, .same hab, fun c hc => ?_⟩
        rw [List.mem_singleton.mp hc]
        exact ⟨NoneAdded.refl t, fun hne => absurd hab hne⟩
      · have hw₁ := (hs.absorbs h ha hb).wellFormed
        rcases hs.knownAll h ha hb with ⟨hka, hkb⟩
        have hfirst : Field.KnownAll t₁.entries.size (ca.fields.foldl Field.insert []) :=
          fun f hf => hka f ((Field.mem_foldl_insert hf).resolve_left List.not_mem_nil)
        rcases Field.ends_uniteAllWith (lawful_mergeUpTo n) ih hw₁ (hs.size_le h ha hb hn) hfirst
          hkb with ⟨calls, he, hcalls⟩
        -- The union is these fields, made optional where they have to be, and named.
        have hunion := hs.unionWith_eq
        rw [Field.unionWith, Prod.mk.injEq] at hunion
        rcases hunion with ⟨rfl, htable⟩
        rw [htable] at he
        refine ⟨calls ++ [⟨t, a, b, (mergeUpTo (n + 1) t a b).2⟩], ?_, fun c hc => ?_⟩
        · rw [hs.merge_eq]
          exact .merge hs.ne hs.at?_left hs.at?_right hs.absorb_eq he rfl
        · rcases List.mem_append.mp hc with hc | hc
          · exact hcalls c hc
          · rw [List.mem_singleton.mp hc]
            have hrun := NoneAdded.run h ((lawful_mergeUpTo (n + 1)).legal t a b h ha hb)
              (merges_mergeOpsUpTo (n + 1) t a b)
            rw [run_mergeOpsUpTo] at hrun
            exact ⟨hrun, fun _ => hs.merge_eq ▸ hs.size_lt h ha hb⟩

/-- Merging two classes ends, whatever the number of live classes is. -/
theorem terminates_mergeClasses (n : Nat) : Terminates n mergeClasses :=
  fun t a b h ha hb _ => terminates_mergeUpTo t.size t a b h ha hb (Nat.le_refl _)

/-- Joining a row ends, as each of its joins does. -/
theorem ends_joinOnto (h : t.WellFormed) {acc : Slot} (hacc : acc.Known t.entries.size)
    {slots : List Slot} (hs : ∀ s ∈ slots, s.Known t.entries.size) :
    Ends t (.onto acc slots) (.slot (t.joinOnto acc slots).1) (t.joinOnto acc slots).2 := by
  induction slots generalizing t acc with
  | nil => exact ⟨[], .last, fun c hc => absurd hc List.not_mem_nil⟩
  | cons s rest ih =>
      rw [List.forall_mem_cons] at hs
      rcases Shape.joinWith_continues (lawful_mergeClasses 0) h acc.shape s.shape hacc hs.1 with
        ⟨hc, hk⟩
      have hsize := hc.entries_size
      rcases Slot.ends_joinWith (terminates_mergeClasses t.size) h (Nat.le_refl _) hacc hs.1 with
        ⟨calls, he, hcalls⟩
      have hkj : (t.joinSlots acc s).1.Known (t.joinSlots acc s).2.entries.size := hsize ▸ hk
      rcases ih hc.wellFormed hkj (hsize ▸ hs.2) with ⟨calls', he', hcalls'⟩
      refine ⟨calls ++ calls', .next he he', fun c hc => ?_⟩
      exact (List.mem_append.mp hc).elim (hcalls c) (hcalls' c)

theorem ends_joinAll (h : t.WellFormed) {slots : List Slot}
    (hs : ∀ s ∈ slots, s.Known t.entries.size) :
    Ends t (.all slots) (.all (t.joinAll slots).1) (t.joinAll slots).2 := by
  cases slots with
  | nil => exact ⟨[], .none, fun c hc => absurd hc List.not_mem_nil⟩
  | cons s rest =>
      rw [List.forall_mem_cons] at hs
      rcases ends_joinOnto h hs.1 hs.2 with ⟨calls, he, hcalls⟩
      exact ⟨calls, .some he, hcalls⟩

/-- Merging terminates in every table, also where classes contain themselves or
    each other. By rules without a bound, joining two slots, joining a row of
    slots and merging two classes have a derivation that leads where the
    functions lead, and no other. All calls in it make no class, and those that
    find two different classes leave fewer than they found. -/
theorem Reachable.joins_terminate (h : t.Reachable) :
    (∀ a b : Slot, a.Known t.entries.size → b.Known t.entries.size →
        Ends t (.join a b) (.slot (t.joinSlots a b).1) (t.joinSlots a b).2 ∧
          NoneAdded t (t.joinSlots a b).2) ∧
      (∀ slots : List Slot, (∀ s ∈ slots, s.Known t.entries.size) →
        Ends t (.all slots) (.all (t.joinAll slots).1) (t.joinAll slots).2 ∧
          NoneAdded t (t.joinAll slots).2) ∧
      (∀ a b : ClassId, a < t.entries.size → b < t.entries.size →
        Ends t (.merge a b) (.id (t.mergeClasses a b).1) (t.mergeClasses a b).2 ∧
          NoneAdded t (t.mergeClasses a b).2 ∧
          (t.resolve a ≠ t.resolve b → (t.mergeClasses a b).2.size < t.size)) ∧
      ∀ task r t' calls r' t'' calls', Evaluates t task r t' calls →
        Evaluates t task r' t'' calls' → r = r' ∧ t' = t'' ∧ calls = calls' := by
  have hw := h.wellFormed
  have hlaw := lawful_mergeClasses t.size
  have hends := terminates_mergeClasses t.size
  refine ⟨fun a b ha hb => ⟨?_, ?_⟩, fun slots hs => ⟨ends_joinAll hw hs, ?_⟩,
    fun a b ha hb => ?_, fun _ _ _ _ _ _ _ he he' => he.unique he'⟩
  · exact Slot.ends_joinWith hends hw (Nat.le_refl _) ha hb
  · -- That nothing is added is seen from the journal, which has merges only.
    have hrun := NoneAdded.run hw (Shape.legal_joinOps hlaw hw a.shape b.shape ha hb)
      (Shape.merges_joinOps hlaw.merges t a.shape b.shape)
    rw [Shape.run_joinOps hlaw.records] at hrun
    exact hrun
  · have hrun := NoneAdded.run hw (hw.joinAll hs).2.2 (merges_joinAllOps t slots)
    rwa [run_joinAllOps] at hrun
  · -- The merge itself is the last of its calls.
    rcases hends t a b hw ha hb (Nat.le_refl _) with ⟨calls, he, hcalls⟩
    have hconsumes := hcalls _ he.self_mem
    exact ⟨⟨calls, he, hcalls⟩, hconsumes.noneAdded, hconsumes.size_lt⟩

/-- Three classes in a circle. To merge two of them leads to the third. -/
def circleOps : List Operation :=
  [.register "A" [⟨"x", "x", ⟨.primitive .int, false⟩⟩],
    .register "B" [⟨"next", "next", ⟨.ref 0, false⟩⟩],
    .register "C" [⟨"next", "next", ⟨.ref 1, false⟩⟩],
    .replace 0 [⟨"next", "next", ⟨.ref 2, false⟩⟩]]

/-- The first merge makes the other two classes meet in the circle, so it is not over
    when the two fields have been united. -/
theorem joins_terminate_circle : ∃ t, t = empty.run circleOps ∧ t.Reachable ∧
    t.classes.map (fun c => c.fields.map (·.slot.shape)) = [[.ref 2], [.ref 0], [.ref 1]] ∧
    t.resolve 0 ≠ t.resolve 1 ∧
    (∃ t', Ends t (.join ⟨.list (.ref 0) false, false⟩ ⟨.list (.ref 1) true, false⟩)
      (.slot ⟨.list (.ref 0) true, false⟩) t') ∧
    (t.mergeClasses 0 1).2.size < t.size ∧ (t.mergeClasses 0 1).2.size = 1 := by
  have hreach : (empty.run circleOps).Reachable := Reachable.empty.run (by decide +kernel)
  have hne : (empty.run circleOps).resolve 0 ≠ (empty.run circleOps).resolve 1 := by
    decide +kernel
  have hslot : ((empty.run circleOps).joinSlots ⟨.list (.ref 0) false, false⟩
      ⟨.list (.ref 1) true, false⟩).1 = ⟨.list (.ref 0) true, false⟩ := by
    decide +kernel
  have hends := (hreach.joins_terminate.1 ⟨.list (.ref 0) false, false⟩
    ⟨.list (.ref 1) true, false⟩ (by decide +kernel) (by decide +kernel)).1
  rw [hslot] at hends
  have hless := hreach.joins_terminate.2.2.1 0 1 (by decide +kernel) (by decide +kernel)
  exact ⟨_, rfl, hreach, by decide +kernel, hne, ⟨_, hends⟩, hless.2.2 hne, by decide +kernel⟩

end ClassTable

end DartModels
