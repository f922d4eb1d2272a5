import DartModels.Proofs.Folding
import DartModels.Proofs.Merging

/-!
# Runs

Every sequence of operations leaves a class table well-formed.

Merging and folding are known to do so. Adding a class is what is left, and with
it all operations are there. Each is looked at once, and what holds after any
sequence of them follows by induction.

## Main definitions

* `Leads`: What a sequence of operations makes of a table.

## Theorems

* `registerOrReuse_cases`: Registering finds a class, adds one, or fails.
* `WellFormed.apply_cases`: What an operation can do.
* `WellFormed.apply`, `WellFormed.run`: Operations, and sequences of them, keep
  a table well-formed.
* `Reachable.wellFormed`: So does any number of pinned classes.
* `Seniority.run`: With one pinned class at most, the oldest class stays.
* `run_wellFormed`: What that means for a new table and any sequence.
-/

namespace DartModels

namespace ClassTable

variable {t t' : ClassTable} {a b i j id source target : ClassId} {c : ClassDef}

/-! ### Adding classes -/

/-- Where no class changes, a table stays well-formed whatever becomes of its index and
    of its names. -/
theorem WellFormed.rewrites_self (h : t.WellFormed) (hr : Rewrites (fun _ c => c) t t') :
    t'.WellFormed where
  toValid := h.toValid.rewrites hr (fun _ _ => rfl) h.known
  refs_live i c hc f hf id hid := by
    rcases hr.at?_eq_some.mp hc with ⟨c', hc', rfl⟩
    rcases h.refs_live i c' hc' f hf id hid with ⟨d, hd⟩
    exact ⟨d, hr.at?_eq_some.mpr ⟨d, hd, rfl⟩⟩

/-- A class may be added if it refers to live classes. -/
theorem WellFormed.push (h : t.WellFormed) (name : String) {fields : List Field}
    (hf : ∀ f ∈ fields, ∀ id ∈ f.slot.shape.ids, ∃ c, t.at? id = some c) :
    (t.push name fields).2.WellFormed := by
  have hold : ∀ {i c}, i ≠ t.entries.size → (t.push name fields).2.at? i = some c →
      t.at? i = some c := fun hne hc => by
    rwa [at?_push, if_neg hne] at hc
  have hnew : ∀ {c}, (t.push name fields).2.at? t.entries.size = some c →
      c = ⟨t.entries.size, name, fields⟩ := fun hc => by
    rw [at?_push, if_pos rfl] at hc
    exact (Option.some.inj hc).symm
  -- References of the new class lead to older ones, and so do all others.
  have hlive : ∀ i c, (t.push name fields).2.at? i = some c → ∀ f ∈ c.fields,
      ∀ id ∈ f.slot.shape.ids, ∃ c', (t.push name fields).2.at? id = some c' := by
    intro i c hc f hmem id hid
    have hex : ∃ c', t.at? id = some c' := by
      by_cases hi : i = t.entries.size
      · subst hi
        rw [hnew hc] at hmem
        exact hf f hmem id hid
      · exact h.refs_live i c (hold hi hc) f hmem id hid
    rcases hex with ⟨d, hd⟩
    exact ⟨d, at?_push_of_at? name fields hd⟩
  refine ⟨⟨h.linked.push name fields, ?_, ?_, ?_⟩, hlive⟩
  · intro i c hc
    by_cases hi : i = t.entries.size
    · subst hi
      rw [hnew hc]
    · exact h.id_eq i c (hold hi hc)
  · intro i c hc f hmem id hid
    rcases hlive i c hc f hmem id hid with ⟨d, hd⟩
    exact lt_of_at? hd
  · intro p hp
    rcases h.pinned_live p hp with ⟨d, hd⟩
    exact ⟨d, at?_push_of_at? name fields hd⟩

theorem Seniority.push (h : t.Seniority) (hl : t.Linked) (name : String) (fields : List Field) :
    (t.push name fields).2.Seniority := by
  intro i hi
  rw [entries_size_push] at hi
  by_cases hlast : i = t.entries.size
  · have hat : (t.push name fields).2.at? i = some ⟨t.entries.size, name, fields⟩ := by
      rw [at?_push, if_pos hlast]
    exact Or.inl (Nat.le_of_eq (resolve_of_at? hat))
  · have hlt : i < t.entries.size := by omega
    rw [resolve_push hl name fields hlt]
    exact h i hlt

/-- Adding a class undoes nothing. -/
theorem Evolves.push (h : t.WellFormed) (name : String) (fields : List Field) :
    Evolves t (t.push name fields).2 where
  size_le := by
    rw [entries_size_push]
    exact Nat.le_succ _
  resolve_resolve i hi := by
    rw [resolve_push h.linked name fields hi,
      resolve_push h.linked name fields (h.linked.resolve_lt hi), h.linked.resolve_resolve hi]
  pinned _ hp := hp
  pinned_name p hp := by
    -- The pinned class was there before, so the new entry is not its own.
    rcases h.pinned_live p hp with ⟨c, hc⟩
    rw [hc, at?_push_of_at? name fields hc]

/-- What the index finds is live and has the signature that was asked for. -/
theorem Linked.lookup?_eq_some (h : t.Linked) {fields : List Field}
    (hl : t.lookup? fields = some id) : ∃ c, t.at? id = some c ∧
      c.signature = (ClassDef.mk t.entries.size "" fields).signature := by
  simp only [lookup?] at hl
  rcases Option.bind_eq_some_iff.mp hl with ⟨entry, _, hl⟩
  rcases Option.bind_eq_some_iff.mp hl with ⟨c, hc, hl⟩
  split at hl
  · rename_i hsig
    rw [← Option.some.inj hl]
    refine ⟨c, ?_, hsig⟩
    by_cases hlt : entry < t.entries.size
    · rwa [find?_eq_at?, h.resolve_resolve hlt] at hc
    · -- A number that was not given out stands for itself, and for no class.
      have hself : t.resolve entry = entry := resolve_of_size_le (Nat.le_of_not_lt hlt)
      rw [hself, find?_eq_at?, hself] at hc
      exact absurd (lt_of_at? hc) hlt
  · exact absurd hl (by simp only [reduceCtorEq, not_false_eq_true])

/-- Registering a class finds one that is there, adds one, or fails. -/
theorem registerOrReuse_cases (t : ClassTable) (base : String) (fields : List Field) :
    (∃ id, t.registerOrReuse base fields = .ok (id, t) ∧
        t.lookup? (t.canonical fields) = some id) ∨
      (∃ name, t.registerOrReuse base fields = .ok (t.push name (t.canonical fields)) ∧
        t.lookup? (t.canonical fields) = none ∧
        Identifier.firstFree t.names.contains base maxNameAttempts = some name) ∨
      t.registerOrReuse base fields = .error ⟨base, maxNameAttempts⟩ := by
  simp only [registerOrReuse]
  cases hl : t.lookup? (t.canonical fields) with
  | some id => exact Or.inl ⟨id, rfl, rfl⟩
  | none =>
      cases hn : Identifier.firstFree t.names.contains base maxNameAttempts with
      | some name => exact Or.inr (Or.inl ⟨name, rfl, rfl, rfl⟩)
      | none => exact Or.inr (Or.inr rfl)

/-- The new class is the pinned one from now on, and it is live. -/
theorem WellFormed.registerPinned (h : t.WellFormed) (name : String) {fields : List Field}
    (hk : Field.KnownAll t.entries.size fields) :
    (t.registerPinned name fields).2.WellFormed := by
  have hpush := h.push name (h.linked.canonical_live hk)
  refine ⟨⟨hpush.linked, hpush.id_eq, hpush.known, ?_⟩, hpush.refs_live⟩
  intro p hpin
  rw [← Option.some.inj hpin]
  exact ⟨_, (at?_push t name (t.canonical fields) _).trans (if_pos rfl)⟩

/-- The first class to be pinned changes nothing in how old classes are. -/
theorem Seniority.registerPinned (h : t.Seniority) (hl : t.Linked) (name : String)
    (fields : List Field) (hp : t.pinned = none) :
    (t.registerPinned name fields).2.Seniority := by
  intro i hi
  -- Nothing was pinned before, so all pointers lead to older classes.
  rcases h.push hl name (t.canonical fields) i hi with hle | hpin
  · exact Or.inl hle
  · exact absurd (hp.symm.trans hpin) (by simp only [reduceCtorEq, not_false_eq_true])

/-- What is there stays, and the class that is pinned is the first of its kind. -/
theorem Evolves.registerPinned (h : t.WellFormed) (name : String) (fields : List Field)
    (hp : t.pinned = none) : Evolves t (t.registerPinned name fields).2 := by
  have hpush := Evolves.push h name (t.canonical fields)
  refine ⟨hpush.size_le, hpush.resolve_resolve, fun p hpin => ?_, hpush.pinned_name⟩
  exact absurd (hp.symm.trans hpin) (by simp only [reduceCtorEq, not_false_eq_true])

/-! ### Folding -/

/-- Folding keeps the older of two classes, or the pinned one. -/
theorem foldable_seniority : Foldable Seniority where
  redirect _ _ _ hv hs hg := hs.redirect hv hg
  settle t _ hs := hs.rewrites (rewrites_settle t)

/-- Folding undoes nothing that came before it. -/
theorem foldable_evolves (h : t.Linked) : Foldable (Evolves t) where
  redirect _ _ _ hv he hg := he.trans h (Evolves.redirect hv hg)
  settle t' hv he := he.trans h
    (Evolves.rewrites hv.linked (rewrites_settle t') fun _ _ _ => rfl)

/-! ### Operations -/

/-- A row of joins, with the slot so far carried along. Its result has to be known to
    the next join, so this is proved with the rest. -/
theorem WellFormed.joinOnto (h : t.WellFormed) {acc : Slot} (hacc : acc.Known t.entries.size)
    {slots : List Slot} (hs : ∀ s ∈ slots, s.Known t.entries.size) :
    Continues t (t.joinOnto acc slots).2 ∧ (t.joinOnto acc slots).1.Known t.entries.size ∧
      t.Legal (t.joinOntoOps acc slots) := by
  induction slots generalizing t acc with
  | nil => exact ⟨Continues.refl h, hacc, trivial⟩
  | cons s rest ih =>
      have hs' := hs s List.mem_cons_self
      rcases Shape.joinWith_continues (lawful_mergeClasses 0) h acc.shape s.shape hacc hs'
        with ⟨hc, hk⟩
      have hsize := hc.entries_size
      have hkj : (t.joinSlots acc s).1.Known (t.joinSlots acc s).2.entries.size := hsize ▸ hk
      rcases ih hc.wellFormed hkj (hsize ▸ fun q hq => hs q (List.mem_cons_of_mem s hq)) with
        ⟨hc', hk', hl'⟩
      refine ⟨hc.trans h.linked hc', hsize ▸ hk', ?_⟩
      rw [joinOntoOps, legal_append, Shape.run_joinOps run_mergeOps]
      exact ⟨Shape.legal_joinOps (lawful_mergeClasses 0) h acc.shape s.shape hacc hs', hl'⟩

/-- A row of joins starts with the first slot, and an empty one has no slot. -/
theorem WellFormed.joinAll (h : t.WellFormed) {slots : List Slot}
    (hs : ∀ s ∈ slots, s.Known t.entries.size) :
    Continues t (t.joinAll slots).2 ∧
      (∀ s, (t.joinAll slots).1 = some s → s.Known t.entries.size) ∧
      t.Legal (t.joinAllOps slots) := by
  cases slots with
  | nil => exact ⟨Continues.refl h, fun s hs => by simp [ClassTable.joinAll] at hs, trivial⟩
  | cons s rest =>
      rcases h.joinOnto (hs s List.mem_cons_self) fun q hq => hs q (List.mem_cons_of_mem s hq)
        with ⟨hc, hk, hl⟩
      exact ⟨hc, fun q hq => Option.some.inj hq ▸ hk, hl⟩

/-- As an operation, registering leaves the table as it is, whether a class is found or no
    name is free, or adds a class under the first free name. -/
theorem register_apply_cases (t : ClassTable) (base : String) (fields : List Field) :
    (Operation.register base fields).apply t = t ∨
      ∃ name, (Operation.register base fields).apply t = (t.push name (t.canonical fields)).2 ∧
        Identifier.firstFree t.names.contains base maxNameAttempts = some name := by
  simp only [Operation.apply]
  rcases t.registerOrReuse_cases base fields with ⟨_, heq, _⟩ | ⟨name, heq, _, hfree⟩ | heq
  · exact Or.inl (by rw [heq])
  · exact Or.inr ⟨name, by rw [heq], hfree⟩
  · exact Or.inl (by rw [heq])

/-- What an operation can do: it merges or replaces, which continues the table, it reserves
    a name, it adds a class in one of two ways, or it folds. -/
theorem WellFormed.apply_cases (h : t.WellFormed) {op : Operation}
    (hk : op.Known t.entries.size) :
    Continues t (op.apply t) ∨ (∃ name, op = .reserve name) ∨
      (∃ base fields, op = .register base fields) ∨ (∃ name fields, op = .pin name fields) ∨
        op = .fold := by
  have hlaw := lawful_mergeClasses 0
  cases op with
  | absorb a b => exact Or.inl (h.absorb hk.1 hk.2)
  | replace id fields => exact Or.inl (h.replaceFields hk.1 hk.2)
  | mergeClasses a b => exact Or.inl (hlaw.continues t a b h hk.1 hk.2)
  | mergeSlots a b =>
      exact Or.inl (Shape.joinWith_continues hlaw h a.shape b.shape hk.1 hk.2).1
  | mergeAll slots => exact Or.inl (h.joinAll hk).1
  | reserve name => exact Or.inr (Or.inl ⟨name, rfl⟩)
  | register base fields => exact Or.inr (Or.inr (Or.inl ⟨base, fields, rfl⟩))
  | pin name fields => exact Or.inr (Or.inr (Or.inr (Or.inl ⟨name, fields, rfl⟩)))
  | fold => exact Or.inr (Or.inr (Or.inr (Or.inr rfl)))

/-- Every operation keeps a table well-formed and undoes nothing. -/
theorem WellFormed.apply (h : t.WellFormed) {op : Operation} (hk : op.Known t.entries.size)
    (hp : op.Pins → t.pinned = none) : (op.apply t).WellFormed ∧ Evolves t (op.apply t) := by
  rcases h.apply_cases hk with
    hc | ⟨name, rfl⟩ | ⟨base, fields, rfl⟩ | ⟨name, fields, rfl⟩ | rfl
  · exact ⟨hc.wellFormed, hc.evolves⟩
  · have hr := rewrites_reserveName t name
    exact ⟨h.rewrites_self hr, Evolves.rewrites h.linked hr fun _ _ _ => rfl⟩
  · rcases t.register_apply_cases base fields with heq | ⟨name, heq, _⟩
    · rw [heq]
      exact ⟨h, Evolves.refl h.linked⟩
    · rw [heq]
      exact ⟨h.push name (h.linked.canonical_live hk), Evolves.push h name _⟩
  · exact ⟨h.registerPinned name hk, Evolves.registerPinned h name fields (hp trivial)⟩
  · exact (foldable_evolves h.linked).foldDuplicates h (Evolves.refl h.linked)

/-- It is well-formed also when another class was pinned before. -/
theorem WellFormed.wellFormed_apply (h : t.WellFormed) {op : Operation}
    (hk : op.Known t.entries.size) : (op.apply t).WellFormed := by
  cases op with
  | pin name fields => exact h.registerPinned name hk
  | _ => exact (h.apply hk fun hp => hp.elim).1

/-- Any number of classes may have been pinned on the way. -/
theorem Reachable.wellFormed (h : t.Reachable) : t.WellFormed := by
  induction h with
  | empty => exact WellFormed.empty
  | apply _ _ hk ih => exact ih.wellFormed_apply hk

/-- With nothing pinned before a class is pinned, each operation keeps the oldest class. -/
theorem Seniority.apply (h : t.Seniority) (hw : t.WellFormed) {op : Operation}
    (hk : op.Known t.entries.size) (hp : op.Pins → t.pinned = none) :
    (op.apply t).Seniority := by
  rcases hw.apply_cases hk with
    hc | ⟨name, rfl⟩ | ⟨base, fields, rfl⟩ | ⟨name, fields, rfl⟩ | rfl
  · exact hc.seniority h
  · exact h.rewrites (rewrites_reserveName t name)
  · rcases t.register_apply_cases base fields with heq | ⟨name, heq, _⟩
    · rwa [heq]
    · rw [heq]
      exact h.push hw.linked name _
  · exact h.registerPinned hw.linked name fields (hp trivial)
  · exact (foldable_seniority.foldDuplicates hw h).2

/-- Only pinning changes what is pinned. -/
theorem WellFormed.pinned_apply (h : t.WellFormed) {op : Operation}
    (hk : op.Known t.entries.size) (hp : ¬ op.Pins) : (op.apply t).pinned = t.pinned := by
  rcases h.apply_cases hk with
    hc | ⟨name, rfl⟩ | ⟨base, fields, rfl⟩ | ⟨name, fields, rfl⟩ | rfl
  · exact hc.pinned
  · rfl
  · rcases t.register_apply_cases base fields with heq | ⟨name, heq, _⟩ <;> rw [heq]
    rfl
  · exact absurd trivial hp
  · -- No step of folding pins a class.
    have hP : Foldable fun t' => t'.pinned = t.pinned :=
      ⟨fun _ _ _ _ hp _ => hp, fun _ _ hp => hp⟩
    exact (hP.foldDuplicates h rfl).2

/-- The same for sequences of operations. -/
theorem WellFormed.run (h : t.WellFormed) {ops : List Operation} (hl : t.Legal ops) :
    (t.run ops).WellFormed ∧ Evolves t (t.run ops) := by
  induction ops generalizing t with
  | nil => exact ⟨h, Evolves.refl h.linked⟩
  | cons op rest ih =>
      rcases hl with ⟨hk, hp, hrest⟩
      rcases h.apply hk hp with ⟨hw, he⟩
      rcases ih hw hrest with ⟨hw', he'⟩
      exact ⟨hw', he.trans h.linked he'⟩

/-- So all operations together keep the oldest class of each group, or the pinned one.
    -/
theorem Seniority.run (h : t.Seniority) (hw : t.WellFormed) {ops : List Operation}
    (hl : t.Legal ops) : (t.run ops).Seniority := by
  induction ops generalizing t with
  | nil => exact h
  | cons op rest ih =>
      rcases hl with ⟨hk, hp, hrest⟩
      exact ih (h.apply hw hk hp) (hw.apply hk hp).1 hrest

/-- Without pinning, all operations together pin nothing. -/
theorem WellFormed.pinned_run (h : t.WellFormed) {ops : List Operation} (hl : t.Legal ops)
    (hp : ∀ op ∈ ops, ¬ op.Pins) : (t.run ops).pinned = t.pinned := by
  induction ops generalizing t with
  | nil => rfl
  | cons op rest ih =>
      rcases hl with ⟨hk, hpin, hrest⟩
      rw [run_cons, ih (h.apply hk hpin).1 hrest fun o ho => hp o (List.mem_cons_of_mem op ho),
        h.pinned_apply hk (hp op List.mem_cons_self)]

/-- A sequence of operations leads from one table to another. -/
structure Leads (t : ClassTable) (ops : List Operation) (t' : ClassTable) : Prop where
  run : t.run ops = t'
  wellFormed : t'.WellFormed
  evolves : Evolves t t'

/-- A legal sequence leads to where it runs. -/
theorem WellFormed.leads (h : t.WellFormed) {ops : List Operation} (hl : t.Legal ops)
    (hrun : t.run ops = t') : Leads t ops t' := by
  rcases h.run hl with ⟨hw, he⟩
  exact ⟨hrun, hrun ▸ hw, hrun ▸ he⟩

/-- A sequence leads to what it runs to, if that continues the table. -/
theorem Continues.leads (h : Continues t t') {ops : List Operation} (hrun : t.run ops = t') :
    Leads t ops t' :=
  ⟨hrun, h.wellFormed, h.evolves⟩

/-- Folding is one operation. -/
theorem WellFormed.leads_fold (h : t.WellFormed) : Leads t [.fold] t.foldDuplicates :=
  h.leads ⟨trivial, fun hp => hp.elim, trivial⟩ rfl

/-- Two sequences, the second of which starts where the first ends. -/
theorem Leads.append (ht : t.WellFormed) {xs ys : List Operation} (hx : Leads t xs t')
    {t'' : ClassTable} (hy : Leads t' ys t'') : Leads t (xs ++ ys) t'' where
  run := by rw [run_append, hx.run, hy.run]
  wellFormed := hy.wellFormed
  evolves := hx.evolves.trans ht.linked hy.evolves

/-- Whatever is asked of a new table: pointers end at live classes, classes
    stand where their numbers say, fields refer to live classes, the oldest of
    the classes that became one stays unless another is pinned, and the pinned
    class stays and keeps its name. -/
theorem run_wellFormed (ops : List Operation) (h : empty.Legal ops) :
    (∀ i < (empty.run ops).entries.size, ∃ j c,
        Relation.ReflTransGen (empty.run ops).PointsTo i j ∧
          (empty.run ops).at? j = some c ∧ (empty.run ops).resolve i = j) ∧
      (∀ i c, (empty.run ops).at? i = some c → c.id = i) ∧
      (∀ i c, (empty.run ops).at? i = some c → ∀ f ∈ c.fields, ∀ id ∈ f.slot.shape.ids,
        ∃ c', (empty.run ops).at? id = some c') ∧
      (∀ i < (empty.run ops).entries.size, (empty.run ops).resolve i ≤ i ∨
        (empty.run ops).pinned = some ((empty.run ops).resolve i)) ∧
      ∀ pre name fields post, ops = pre ++ .pin name fields :: post →
        ∃ c, (empty.run ops).at? ((empty.run pre).registerPinned name fields).1 = some c ∧
          c.name = name := by
  rcases WellFormed.empty.run h with ⟨hw, _⟩
  have hsen : (empty.run ops).Seniority :=
    Seniority.run (fun _ hi => absurd hi (Nat.not_lt_zero _)) WellFormed.empty h
  refine ⟨?_, hw.id_eq, hw.refs_live, hsen, ?_⟩
  · intro i hi
    -- The end of the chain is what the number resolves to.
    rcases hw.linked.find? hi with ⟨c, hc⟩
    exact ⟨_, c, reflTransGen_follow _ _ i, hc, rfl⟩
  · intro pre name fields post hops
    subst hops
    rw [legal_append] at h
    rcases h with ⟨hpre, hk, hp, hpost⟩
    have hw' := (WellFormed.empty.run hpre).1
    -- The class is pinned in the middle, so the operations after it are a run of their own.
    have hpin := (hw'.apply hk hp).1.run hpost
    rw [run_append, run_cons]
    -- The class is there when it is pinned, and what is pinned keeps its name.
    have hname := hpin.2.pinned_name _ rfl
    have hat : ((empty.run pre).registerPinned name fields).2.at? (empty.run pre).entries.size =
        some ⟨_, name, (empty.run pre).canonical fields⟩ :=
      (at?_push (empty.run pre) name _ _).trans (if_pos rfl)
    rw [Operation.apply, hat] at hname
    exact Option.map_eq_some_iff.mp hname

/-- Two classes and the root, which refers to both and absorbs one of them. -/
theorem run_wellFormed_pinned_absorbs : ∃ ops,
    ops = [.reserve "R", .register "A" [⟨"x", "x", ⟨.primitive .int, false⟩⟩],
      .register "B" [⟨"a", "a", ⟨.ref 0, false⟩⟩],
      .pin "R" [⟨"l", "l", ⟨.list (.ref 0) true, false⟩⟩, ⟨"b", "b", ⟨.ref 1, true⟩⟩],
      .mergeClasses 1 2, .absorb 2 0, .fold] ∧ empty.Legal ops ∧
    (∀ i < (empty.run ops).entries.size, (empty.run ops).resolve i ≤ i ∨
      (empty.run ops).pinned = some ((empty.run ops).resolve i)) :=
  ⟨_, rfl, by decide +kernel, (run_wellFormed _ (by decide +kernel)).2.2.2.1⟩

end ClassTable

end DartModels
